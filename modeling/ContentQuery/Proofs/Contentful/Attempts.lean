import ContentQuery.Proofs.Attempts
import ContentQuery.Proofs.Contentful.Merging

/-! What is tried of a filter becomes parameters, is dropped with a notice, or refuses. -/

namespace ContentQuery.Contentful

open Compile (Decides)

/-- Whether a literal can be sent as a parameter. -/
def isSendable (value : Value) : Bool :=
  (Parameter.ofValue value).toOption.isSome

/-- Whether a comparison asks whether the field exists, and sends no literal. -/
def asksExistence (operator : Operator) (value : Value) : Bool :=
  match operator with
  | .defined | .undefined => true
  | .equal | .notEqual => value.isNull
  | _ => false

/-- Whether a field is a path. -/
def isPath : Value → Bool
  | .text path => pathGrammar.isPath path
  | _ => false

/-- The refusal that a field leads to: it is neither a text nor null. -/
def fieldRefusal? (field : Value) : Option Fault :=
  if field.isMistyped then some .mistyped else none

/--
The refusal that an attempt leads to, for its field or for an integer that has to be written.

A reference comparison looks at its literal first, and at its field only if that can be sent. Every
other comparison looks at its field first, and at its literal only behind a path.
-/
def refusal? : Attempt → Option Fault
  | .leaf field (.known .references) value =>
    (refusalOf (Parameter.ofValue value)).or
      (if isSendable value then fieldRefusal? field else none)
  | .leaf field (.known operator) value =>
    if (suffix? operator).isSome then
      (fieldRefusal? field).or
        (if isPath field && !asksExistence operator value then refusalOf (Parameter.ofValue value)
          else none)
    else none
  | .leaf _ (.unknown _) _ => none
  | .membership field values =>
    (fieldRefusal? field).or
      (if isPath field then refusalOf (Parameter.ofItems values) else none)
  | .across branches =>
    if branches.any (·.field.isMistyped) then some .mistyped else none
  | .negation _ => none

/-- Whether an attempt is carried over. -/
def carries : Attempt → Bool
  | .leaf field (.known .references) value =>
    isSendable value && (isPath field || (field.isNull && value.items?.isNone))
  | .leaf field (.known operator) value =>
    (suffix? operator).isSome && isPath field && (asksExistence operator value || isSendable value)
  | .leaf _ (.unknown _) _ => false
  | .membership field values => isPath field && (Parameter.ofItems values).toOption.isSome
  | .across _ | .negation _ => false

/-- Whether an attempt is carried over to a parameter that the log may fail to write. -/
def overlong (attempt : Attempt) : Bool :=
  carries attempt && attempt.isOverlong

mutual

/--
What is tried of a condition.

Alternatives are not all tried: one that constrains nothing frees them, those on one field are tried
as one membership, and of others only the first is. A negation around an equality is a leaf.
-/
def attempts : Condition → List Attempt
  | .leaf field comparison value => [.leaf field comparison value]
  | .all conditions => attemptsAll conditions
  | .any [] => []
  | .any (first :: rest) =>
    if (first :: rest).any Condition.alwaysTrue then []
    else if rest.isEmpty then attempts first
    else
      match allowedTogether? first.field (first :: rest) with
      | some values => [.membership first.field values]
      | none => .across (first :: rest) :: attempts first
  | .not (.leaf field (.known .equal) value) => [.leaf field (.known .notEqual) value]
  | .not inner => [.negation inner]
termination_by structural input => input

/-- What is tried of conditions, one condition after the other. -/
def attemptsAll : List Condition → List Attempt
  | [] => []
  | condition :: rest => attempts condition ++ attemptsAll rest
termination_by structural input => input

end

section Leaves

/-- The parameter of a scalar that can be shown can be written. -/
theorem isWritable_of_ofScalar {value : Value} {parameter : Parameter}
    (made : Parameter.ofScalar value = .ok parameter) (shown : value.canInspect = true) :
    parameter.isWritable = true := by
  -- Only an integer may be too long to be written, and then it cannot be shown either.
  have scalar := Value.canInspect_scalar shown
  unfold Parameter.ofScalar at made
  split at made
  · cases made
    rfl
  · rename_i integer same
    cases made
    rwa [same] at scalar
  · split at made
    · cases made
      rfl
    · exact nomatch made
  · cases made
    rfl
  · exact nomatch made
  · exact nomatch made

/-- The parameter of a literal that can be shown can be written. -/
theorem isWritable_of_canInspect {value : Value} {parameter : Parameter}
    (made : Parameter.ofValue value = .ok parameter) (shown : value.canInspect = true) :
    parameter.isWritable = true := by
  unfold Parameter.ofValue at made
  obtain ⟨-, -, made⟩ := ok_of_bind made
  -- The items of a list are sent as a text, and a number is written as it is shown.
  split at made
  · obtain ⟨_, -, rfl, -⟩ := Parameter.parts_of_ofItems made
    rfl
  · split at made
    · cases made
    · exact isWritable_of_ofScalar made shown

/-- What a leaf sets can be written, unless its literal is carried over and too long. -/
def Light (attempt : Attempt) (map : FilterMap) : Prop :=
  ∀ entry ∈ map.entries, entry.2.isWritable = false → overlong attempt = true

/-- Nothing is easily written. -/
theorem light_empty {attempt : Attempt} : Light attempt .empty :=
  List.forall_mem_nil _

/-- A word is easily written. -/
theorem light_word {attempt : Attempt} {key word : String} :
    Light attempt (single key (.text word)) :=
  List.forall_mem_singleton.mpr nofun

/-- The parameter of the literal of a leaf that is carried over is as long as the literal. -/
theorem light_parameter {field value : Value} {comparison : Comparison} {key : String}
    {parameter : Parameter} (made : Parameter.ofValue value = .ok parameter)
    (carried : carries (.leaf field comparison value) = true) :
    Light (.leaf field comparison value) (single key parameter) := by
  -- What cannot be written cannot be shown, and then the leaf is one that may be overlong.
  refine List.forall_mem_singleton.mpr fun long => ?_
  have hidden : value.canInspect = false := by
    rw [← Bool.not_eq_true]
    exact fun shown => absurd (isWritable_of_canInspect made shown) (by simp [long])
  rw [overlong, carried, Attempt.isOverlong, hidden]
  rfl

/-- The notice about a field names the leaf that it was the field of. -/
def AboutField (field : Value) (role : String) (notices : List Notice) : Prop :=
  ∃ notice ∈ notices,
    notice.field = field ∧ notice.operator = .text role ∧ notice.reason = .invalidField

/-- The path of a field is given, or a notice about the field is; a mistyped field is refused. -/
theorem decides_pathOf (field : Value) (role : String) :
    (pathOf? field role).Decides (fieldRefusal? field)
      fun result notices =>
        (∀ path ∈ result, field = .text path ∧ isPath field = true) ∧
          (result = none → isPath field = false ∧ AboutField field role notices) := by
  -- A text is a path or is told of; nothing at all is told of too, and anything else is refused.
  have noted (invalid : isPath field = false) :
      Decides (do noteField field role; return (none : Option String)) none fun result notices =>
        (∀ path ∈ result, field = .text path ∧ isPath field = true) ∧
          (result = none → isPath field = false ∧ AboutField field role notices) :=
    .noted ⟨fun path there => absurd there (Option.not_mem_none path),
      fun _ => ⟨invalid, _, List.mem_singleton_self _, rfl, rfl, rfl⟩⟩
  cases field with
  | text path =>
    unfold pathOf?
    dsimp only
    split
    · rename_i valid
      refine .pure ⟨fun found there => ?_, fun absent => absurd absent (Option.some_ne_none path)⟩
      cases there
      exact ⟨rfl, valid⟩
    · rename_i invalid
      exact noted (by simpa [isPath] using invalid)
  | null => exact noted rfl
  | _ => exact .refuse

/-- The parameter of a literal is given, or a notice about the literal is. -/
theorem decides_parameterOf (field : Value) (operator : Operator) (value : Value) :
    (parameterOf? field operator value).Decides (refusalOf (Parameter.ofValue value))
      fun result notices => result = (Parameter.ofValue value).toOption ∧
        (isSendable value = false →
          ∃ notice ∈ notices, NamesLeaf field (.known operator) notice) := by
  -- The value is sent as a parameter or is dropped with a notice, unless the notice itself cannot
  -- be written.
  unfold parameterOf? isSendable
  split
  · rename_i parameter made
    rw [made]
    exact .pure ⟨rfl, nofun⟩
  · rename_i fault made
    refine (decides_dropInvalidValue field operator made).before fun _ notices named => .pure ?_
    rw [made, List.append_nil]
    exact ⟨rfl, fun _ => named⟩

/-- A notice about the field of a leaf is one about the leaf. -/
theorem AboutField.names {field value : Value} {comparison : Comparison} {notices : List Notice}
    (about : AboutField field comparison.word notices) :
    ∃ notice ∈ notices, (Attempt.leaf field comparison value).Names notice := by
  obtain ⟨notice, member, sameField, sameRole, reason⟩ := about
  exact ⟨notice, member, sameField, sameRole, by rw [reason]; simp⟩

/-- A leaf is accounted for by its notices, and by what it sets. -/
def Accounts (attempt : Attempt) (map : FilterMap) (notices : List Notice) : Prop :=
  Noticed carries attempt notices ∧ Light attempt map

/-- A reference comparison is carried over, dropped with a notice, or refused. -/
theorem decides_convertReference (field value : Value) :
    (convertReference field value).Decides (refusal? (.leaf field (.known .references) value))
      (Accounts (.leaf field (.known .references) value)) := by
  refine (decides_parameterOf field .references value).bind fun result notices met => ?_
  obtain ⟨there, told⟩ := met
  cases made : Parameter.ofValue value with
  | error fault =>
    -- The literal has been told of, and the field is not looked at.
    have lost : isSendable value = false := by
      rw [isSendable, made]
      rfl
    rw [made] at there
    rw [there, lost, if_neg Bool.false_ne_true]
    refine .pure ⟨fun _ => ?_, light_empty⟩
    rw [List.append_nil]
    exact told lost
  | ok parameter =>
    have sent : isSendable value = true := by
      rw [isSendable, made]
      rfl
    rw [made] at there
    rw [there, sent, if_pos rfl]
    dsimp only [Except.toOption]
    split
    · rename_i null
      obtain rfl : field = .null := by
        cases field <;> simp_all [Value.isNull]
      -- Without a field, only one document can be asked for.
      split
      · exact .noted ⟨fun _ =>
          ⟨_, List.mem_append_right _ (List.mem_singleton_self _), rfl, rfl, by simp⟩, light_empty⟩
      · rename_i single
        have one : value.items? = none := by simpa using single
        have carried : carries (.leaf .null (.known .references) value) = true := by
          simp [carries, sent, one, Value.isNull]
        exact .pure ⟨fun lost => absurd carried (by simp [lost]), light_parameter made carried⟩
    · refine (decides_pathOf field _).before fun known notices' met => ?_
      obtain ⟨valid, lost⟩ := met
      cases known with
      | none =>
        have about : AboutField field (Comparison.known .references).word notices' := (lost rfl).2
        obtain ⟨notice, member, names⟩ := about.names
        exact .pure ⟨fun _ => ⟨notice, by simp [member], names⟩, light_empty⟩
      | some known =>
        have carried : carries (.leaf field (.known .references) value) = true := by
          simp [carries, sent, (valid known rfl).2]
        exact .pure ⟨fun failed => absurd carried (by simp [failed]),
          light_parameter made carried⟩

section Suffixed

variable {operator : Operator} {suffix : String} (suffixed : suffix? operator = some suffix)
include suffixed

/-- A comparison with a parameter is refused for its field, or for its literal behind a path. -/
theorem refusal?_comparison (field value : Value) :
    refusal? (.leaf field (.known operator) value) =
      (fieldRefusal? field).or
        (if isPath field && !asksExistence operator value then refusalOf (Parameter.ofValue value)
          else none) := by
  cases operator with
  | startsWith | endsWith | references => exact nomatch suffixed
  | _ => simp [refusal?, suffix?]

/-- A comparison with a parameter is carried over where its field is a path. -/
theorem carries_comparison (field value : Value) :
    carries (.leaf field (.known operator) value) =
      (isPath field && (asksExistence operator value || isSendable value)) := by
  cases operator with
  | startsWith | endsWith | references => exact nomatch suffixed
  | _ => simp [carries, suffix?]

/-- A comparison is carried over, dropped with a notice, or refused. -/
theorem decides_convertComparison (field value : Value) :
    (convertComparison field operator suffix value).Decides
      (refusal? (.leaf field (.known operator) value))
      (Accounts (.leaf field (.known operator) value)) := by
  -- The field comes first, then the tests for existence, and only then the literal.
  rw [refusal?_comparison suffixed]
  refine (decides_pathOf field operator.symbol).bind fun known notices met => ?_
  obtain ⟨valid, lost⟩ := met
  cases known with
  | none =>
    have about : AboutField field (Comparison.known operator).word notices := (lost rfl).2
    obtain ⟨notice, member, names⟩ := about.names
    rw [(lost rfl).1, Bool.false_and, if_neg Bool.false_ne_true]
    exact .pure ⟨fun _ => ⟨notice, by simp [member], names⟩, light_empty⟩
  | some path =>
    have carried : carries (.leaf field (.known operator) value) =
        (asksExistence operator value || isSendable value) := by
      rw [carries_comparison suffixed, (valid path rfl).2, Bool.true_and]
    rw [(valid path rfl).2, Bool.true_and]
    -- Tests for existence come first, for they do not look at their literal.
    have asked (word : String) (asks : asksExistence operator value = true) :
        Decides (pure (single (fieldKey path ++ "[exists]") (.text word)))
          (if !asksExistence operator value then refusalOf (Parameter.ofValue value) else none)
          fun map notices' => Accounts (.leaf field (.known operator) value) map
            (notices ++ notices') := by
      rw [asks, Bool.true_or] at carried
      rw [asks]
      exact .pure ⟨fun failed => absurd carried (by simp [failed]), light_word⟩
    dsimp only
    split
    · exact asked "true" rfl
    · exact asked "false" rfl
    · exact asked "false" rfl
    · exact asked "true" rfl
    · rename_i present absent equal unequal
      have plain : asksExistence operator value = false := by
        cases operator <;> cases value <;> simp_all [asksExistence, Value.isNull]
      rw [plain, Bool.false_or] at carried
      rw [plain, Bool.not_false, if_pos rfl]
      refine (decides_parameterOf field operator value).before fun result notices' met => ?_
      obtain ⟨there, told⟩ := met
      have names : carries (.leaf field (.known operator) value) = false →
          ∃ notice ∈ notices ++ (notices' ++ []),
            (Attempt.leaf field (.known operator) value).Names notice := by
        intro failed
        obtain ⟨notice, member, names⟩ := told (carried.symm.trans failed)
        exact ⟨notice, by simp [member], names⟩
      cases made : Parameter.ofValue value with
      | error fault =>
        rw [there, made]
        exact .pure ⟨names, light_empty⟩
      | ok parameter =>
        have sent : isSendable value = true := by
          rw [isSendable, made]
          rfl
        rw [there, made]
        exact .pure ⟨names, light_parameter made (carried.trans sent)⟩

end Suffixed

/-- A leaf is carried over, dropped with a notice, or refused. -/
theorem decides_convertLeaf (field : Value) (comparison : Comparison) (value : Value) :
    (convertLeaf field comparison value).Decides (refusal? (.leaf field comparison value))
      (Accounts (.leaf field comparison value)) := by
  -- References come first, then the operators that have a suffix; the others are told of as
  -- unsupported.
  have unsupported : (convertLeaf.unsupported field comparison).Decides none
      (Accounts (.leaf field comparison value)) :=
    .noted ⟨fun _ => ⟨_, List.mem_singleton_self _, rfl, rfl, by simp⟩, light_empty⟩
  unfold convertLeaf
  split
  · exact decides_convertReference field value
  · rename_i operator other
    split
    · rename_i suffix suffixed
      exact decides_convertComparison suffixed field value
    · rename_i none_
      have passes : refusal? (.leaf field (.known operator) value) = none := by
        unfold refusal?
        split <;> simp_all
      rw [passes]
      exact unsupported
  · exact unsupported

end Leaves

/-- A membership is carried over, dropped with a notice, or refused. -/
theorem decides_convertMembership (field : Value) (values : List Value) :
    (convertMembership field values).Decides (refusal? (.membership field values))
      (Accounts (.membership field values)) := by
  -- The field comes first; then the values are sent, or the membership is told of.
  refine (decides_pathOf field Shape.any.word).bind fun known notices ⟨valid, lost⟩ => ?_
  cases known with
  | none =>
    obtain ⟨notice, member, sameField, sameRole, reason⟩ := (lost rfl).2
    rw [(lost rfl).1, if_neg Bool.false_ne_true]
    refine .pure ⟨fun _ => ⟨notice, by simp [member], sameField, sameRole, ?_⟩, light_empty⟩
    rw [reason]
    simp
  | some path =>
    have path_ := (valid path rfl).2
    rw [path_, if_pos rfl]
    dsimp only
    split
    · rename_i parameter made
      rw [refusalOf_of_ok made]
      -- A list is sent as a text, however long the integers in it are.
      obtain ⟨_, -, rfl, -⟩ := Parameter.parts_of_ofItems made
      refine .pure ⟨fun failed => ?_, light_word⟩
      simp [carries, path_, made, Except.toOption] at failed
    · rename_i fault made
      rw [made]
      unfold refusalOf
      dsimp only
      cases fault.isUnwritable with
      | true => exact fun _ => rfl
      | false =>
        rw [if_neg Bool.false_ne_true]
        exact .noted ⟨fun _ =>
          ⟨_, List.mem_append_right _ (List.mem_singleton_self _), rfl, rfl, by simp⟩, light_empty⟩

/-- The fields of branches are given, unless one of them is mistyped. -/
theorem decides_fieldsOf (branches : List Condition) :
    (Compile.ofExcept (fieldsOf branches)).Decides (refusal? (.across branches))
      fun _ _ => True := by
  -- By induction on the fields: those that are missing are passed over, and one that is no text is
  -- refused.
  have texts (fields : List Value) :
      ((fields.filter (!·.isNull)).mapM fieldsOf.text?).isNone = fields.any Value.isMistyped := by
    induction fields with
    | nil => rfl
    | cons field rest ih =>
      rw [List.any_cons, ← ih]
      cases field with
      | null => rfl
      | text name =>
        have kept : (!(Value.text name).isNull) = true := rfl
        rw [List.filter_cons, if_pos kept, List.mapM_cons]
        cases (rest.filter (!·.isNull)).mapM fieldsOf.text? <;> rfl
      | _ => rfl
  have mistyped := texts (branches.map Condition.field)
  rw [List.any_map] at mistyped
  show Decides _ (if branches.any (Value.isMistyped ∘ Condition.field) then some .mistyped
    else none) _
  unfold fieldsOf
  rw [← mistyped]
  cases ((branches.map Condition.field).filter (!·.isNull)).mapM fieldsOf.text? with
  | none => exact fun _ => rfl
  | some names => exact ⟨_, _, Compile.gives_pure _, trivial⟩

/-- Alternatives that cannot be joined are told of, unless one of their fields is mistyped. -/
theorem decides_noteAcrossFields (branches : List Condition) :
    (noteAcrossFields branches).Decides (refusal? (.across branches))
      fun _ notices => Noticed carries (.across branches) notices :=
  (decides_fieldsOf branches).before fun _ _ _ => .degrade fun _ =>
    ⟨_, List.mem_append_right _ (List.mem_singleton_self _), rfl, rfl⟩

/-- What is tried is accounted for by notices, and by parameters that are as long as literals. -/
structure AccountsAll (tried : List Attempt) (map : FilterMap) (notices : List Notice) : Prop where
  told : Told carries tried notices
  light : ∀ entry ∈ map.entries, entry.2.isWritable = false →
    ∃ attempt ∈ tried, overlong attempt = true

/-- A single attempt is accounted for when all of one attempt are. -/
theorem Accounts.all {attempt : Attempt} {map : FilterMap} {notices : List Notice}
    (accounts : Accounts attempt map notices) : AccountsAll [attempt] map notices where
  told := told_single accounts.1
  light entry member long := ⟨attempt, List.mem_singleton_self _, accounts.2 entry member long⟩

/-- Nothing is accounted for by nothing. -/
theorem accountsAll_nil {notices : List Notice} : AccountsAll [] .empty notices :=
  ⟨told_nil, List.forall_mem_nil _⟩

/-- A negation that is dropped is told of, and sets nothing. -/
theorem accounts_negation {inner : Condition} {notice : Notice}
    (names : (Attempt.negation inner).Names notice) :
    AccountsAll [.negation inner] .empty [notice] :=
  Accounts.all ⟨fun _ => ⟨notice, List.mem_singleton_self _, names⟩, light_empty⟩

/-- A negation is tried around an equality, and dropped with a notice around everything else. -/
theorem decides_convertNegation (inner : Condition) :
    (convertNegation inner).Decides ((attempts (.not inner)).findSome? refusal?)
      (AccountsAll (attempts (.not inner))) := by
  -- Only the negation of an equality can be sent, as the operator against it; whatever else is
  -- negated is dropped.
  unfold convertNegation
  split
  · rename_i always
    have dropped : attempts (.not inner) = [.negation inner] := by
      cases inner with
      | leaf field comparison value => exact absurd always (by simp [Condition.alwaysTrue])
      | _ => simp [attempts]
    rw [dropped]
    exact Decides.single (.noted (accounts_negation ⟨rfl, by simp⟩))
  · split
    · rename_i field value _
      have one : attempts (.not (.leaf field (.known .equal) value)) =
          [.leaf field (.known .notEqual) value] := by simp [attempts]
      rw [one]
      exact (decides_convertLeaf field _ value).single.mono fun _ _ => Accounts.all
    · rename_i other
      have dropped : attempts (.not inner) = [.negation inner] := by
        rw [attempts]
        exact other
      rw [dropped]
      exact Decides.single (.noted (accounts_negation ⟨rfl, by simp⟩))

/-- Merging parameters gives their union, and is never refused. -/
theorem decides_merge (map source : FilterMap) :
    (merge map source).Decides none fun merged _ => merged = map.union source := by
  obtain ⟨notices, merged, -⟩ := gives_merge map source
  exact ⟨_, notices, merged, rfl⟩

/-- What is tried beside a first branch that is kept is told of. -/
theorem AccountsAll.across {branches : List Condition} {tried : List Attempt} {map : FilterMap}
    {notices notices' : List Notice} (noticed : Noticed carries (.across branches) notices)
    (accounts : AccountsAll tried map notices') :
    AccountsAll (.across branches :: tried) map (notices ++ notices') where
  told := (told_single noticed).append accounts.told
  light entry member long := by
    obtain ⟨attempt, among, heavy⟩ := accounts.light entry member long
    exact ⟨attempt, List.mem_cons_of_mem _ among, heavy⟩

/-- What is tried is accounted for in the map that it is merged to. -/
structure AccountsIn (start : FilterMap) (tried : List Attempt) (map : FilterMap)
    (notices : List Notice) : Prop where
  told : Told carries tried notices
  light : ∀ entry ∈ map.entries, entry.2.isWritable = false →
    entry ∈ start.entries ∨ ∃ attempt ∈ tried, overlong attempt = true
  grown : ∃ source, map = start.union source

/-- In a map that nothing was set in, what is tried is accounted for by itself. -/
theorem AccountsIn.all {tried : List Attempt} {map : FilterMap} {notices : List Notice}
    (accounts : AccountsIn .empty tried map notices) : AccountsAll tried map notices where
  told := accounts.told
  light entry member long := (accounts.light entry member long).resolve_left List.not_mem_nil

/-- What is tried first and what is tried then are accounted for in one map. -/
theorem AccountsAll.then {start source map : FilterMap} {tried tried' : List Attempt}
    {notices between notices' : List Notice} (accounts : AccountsAll tried source notices)
    (accounts' : AccountsIn (start.union source) tried' map notices') :
    AccountsIn start (tried ++ tried') map (notices ++ (between ++ notices')) := by
  obtain ⟨more, grown⟩ := accounts'.grown
  refine ⟨accounts.told.append (accounts'.told.within (List.subset_append_right _ _)), ?_,
    ⟨source.entries ++ more.entries⟩, grown.trans (OrderedMap.union_append _ _ _).symm⟩
  intro entry member long
  rcases accounts'.light entry member long with merged | ⟨attempt, among, heavy⟩
  · -- An entry of the merged map was there, or it was set by what was tried first.
    rcases OrderedMap.mem_of_union merged with there | set
    · exact .inl there
    · obtain ⟨attempt, among, heavy⟩ := accounts.light entry set long
      exact .inr ⟨attempt, List.mem_append_left _ among, heavy⟩
  · exact .inr ⟨attempt, List.mem_append_right _ among, heavy⟩

-- By induction on the conditions: a refusal of a part is one of the whole, and notices stay.
mutual

/-- A condition is refused for the first attempt that refuses, and accounted for if none does. -/
theorem decides_convert : (condition : Condition) →
    (convert condition).Decides ((attempts condition).findSome? refusal?)
      (AccountsAll (attempts condition))
  -- By induction on the condition. A disjunction keeps its first branch, unless all its branches
  -- ask for values of one field.
  | .leaf field comparison value =>
    (decides_convertLeaf field comparison value).single.mono fun _ _ => Accounts.all
  | .all conditions => (decides_convertInto conditions .empty).mono fun _ _ => AccountsIn.all
  | .any [] => .noted accountsAll_nil
  | .any (first :: rest) => by
    have kept := decides_convert first
    unfold convert attempts
    split
    · exact .pure accountsAll_nil
    · split
      · exact kept
      · cases allowedTogether? first.field (first :: rest) with
        | some values =>
          exact (decides_convertMembership first.field values).single.mono fun _ _ => Accounts.all
        | none =>
          have noted := (decides_noteAcrossFields (first :: rest)).single
          show Decides _ (([Attempt.across (first :: rest)] ++ attempts first).findSome? refusal?) _
          rw [List.findSome?_append]
          exact noted.bind fun _ _ noticed => kept.mono fun _ _ => AccountsAll.across noticed
  | .not inner => decides_convertNegation inner
termination_by structural condition => condition

/-- Conditions are refused for the first attempt that refuses, and accounted for if none does. -/
theorem decides_convertInto : (conditions : List Condition) → (map : FilterMap) →
    (convertInto map conditions).Decides ((attemptsAll conditions).findSome? refusal?)
      (AccountsIn map (attemptsAll conditions))
  -- By induction on the conditions: the refusals are looked for in the order in which the
  -- conditions are merged.
  | [], _ => .pure ⟨told_nil, fun _ member _ => .inl member, .empty, rfl⟩
  | condition :: rest, map => by
    have first := decides_convert condition
    unfold convertInto attemptsAll
    rw [List.findSome?_append]
    refine first.bind fun source notices accounts => ?_
    refine (decides_merge map source).after fun merged between same => ?_
    rw [same]
    exact (decides_convertInto rest _).mono fun _ _ => accounts.then
termination_by structural conditions => conditions

end

/-- The parameter that a map opens with can be written, and it stands alone. -/
theorem startOf_sound (query : Query) :
    (startOf query).Distinct ∧ ∀ entry ∈ (startOf query).entries, entry.2.isWritable = true := by
  unfold startOf
  split
  · exact ⟨List.Pairwise.nil, List.forall_mem_nil _⟩
  · exact ⟨List.pairwise_singleton _ _, List.forall_mem_singleton.mpr rfl⟩

section Filter

variable {settings : Settings} {query : Query} {assigned : FilterMap}
  (gives : ∀ map, ∃ notices, (convertInto map settings.globalFilter.conditionList).Gives
    (map.union assigned) notices)
include gives

/-- A filter is refused for the query's own conditions, where the global ones assign something. -/
theorem decides_filterOf (own : List Condition) :
    (filterOf settings query own).Decides ((attemptsAll own).findSome? refusal?)
      fun filter notices => ∃ merged, filter = OrderedMap.union merged assigned ∧
        AccountsIn (startOf query) (attemptsAll own) merged notices := by
  have typed : (noteTypes query).Decides none fun _ _ => True := by
    unfold noteTypes
    split
    · exact .degrade trivial
    · exact .pure trivial
  rw [filterOf_eq, convertInto_append]
  -- The notice about further types stands before those about conditions.
  refine typed.after fun _ noted _ => ?_
  refine (decides_convertInto own _).before fun merged notices ⟨told, light, grown⟩ => ?_
  obtain ⟨others, given⟩ := gives merged
  refine ⟨_, others, given, merged, rfl, told.within fun notice member => ?_, light, grown⟩
  simp [member]

end Filter

/-- Behind global parameters that can be written, only overlong literals cannot be. -/
theorem overlong_of_filter {query : Query} {tried : List Attempt} {merged assigned : FilterMap}
    {notices : List Notice} (accounts : AccountsIn (startOf query) tried merged notices)
    (written : ((startOf query).union assigned).entries.all (·.2.isWritable) = true)
    (long : (merged.union assigned).entries.all (·.2.isWritable) = false) :
    ∃ attempt ∈ tried, overlong attempt = true := by
  obtain ⟨alone, opens⟩ := startOf_sound query
  obtain ⟨entry, member, heavy⟩ := List.all_eq_false.mp long
  simp only [Bool.not_eq_true] at heavy
  have distinct : merged.Distinct := by
    obtain ⟨source, rfl⟩ := accounts.grown
    exact alone.union source
  -- The entry is found under its key, where either the global conditions or the others set it.
  have found := (distinct.union assigned).get?_of_mem member
  rw [OrderedMap.get?_union (OrderedMap.isDiscrete _)] at found
  cases set : (OrderedMap.empty.union assigned).get? entry.1 with
  | some parameter =>
    rw [set] at found
    obtain rfl : parameter = entry.2 := Option.some.inj found
    -- What the global conditions set is there without the others as well, and is written there.
    have there : ((startOf query).union assigned).get? entry.1 = some entry.2 := by
      rw [OrderedMap.get?_union (OrderedMap.isDiscrete _), set]
      rfl
    have light := List.all_eq_true.mp written _ (OrderedMap.mem_of_get? there)
    exact absurd light (by simp [heavy])
  | none =>
    rw [set] at found
    rcases accounts.light entry (OrderedMap.mem_of_get? found) heavy with start | tried
    · exact absurd (opens entry start) (by simp [heavy])
    · exact tried

/-- A query that compiles without conditions comes to what is tried of its own conditions. -/
theorem compile_comesTo {settings : Settings} {everyLocale : Value} {query : Query}
    {own : List Condition} {bare : Request} (lenient : settings.strict.isTruthy = false)
    (built : compile settings everyLocale query [] = .ok bare) :
    ComesTo refusal? carries overlong (attemptsAll own) Compiled.notices
      (compile settings everyLocale query own) := by
  obtain ⟨after, converted, -⟩ := filter_of_compile built
  obtain ⟨ran, written⟩ := Contentful.run_of_compile built
  rw [filterOf_eq, List.nil_append] at converted
  obtain ⟨_, _, -, merged⟩ := Compile.ok_of_bind converted
  obtain ⟨assigned, same, -, gives⟩ := assigned_of_run merged
  rw [convertQuery_eq] at ran
  rw [same] at written
  -- The global conditions gave a filter that can be written, so that only the others can fail.
  have decided : (filterOf settings query own).Decides ((attemptsAll own).findSome? refusal?)
      fun filter notices => Told carries (attemptsAll own) notices ∧
        (filter.entries.all (·.2.isWritable) = false →
          ∃ attempt ∈ attemptsAll own, overlong attempt = true) := by
    refine (decides_filterOf gives own).mono fun filter notices tried => ?_
    obtain ⟨merged, rfl, accounts⟩ := tried
    exact ⟨accounts.told, overlong_of_filter accounts written⟩
  unfold compile
  rw [convertQuery_eq]
  exact comesTo_of_decides lenient ran (blind_filterOf settings query []) decided
    fun filter filter' context result after notices ended =>
      passThrough_of_run (steady_optionsOf settings everyLocale query) ended notices

end ContentQuery.Contentful
