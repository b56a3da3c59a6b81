import ContentQuery.Proofs.Alike.Filter
import ContentQuery.Proofs.Contentful.Merging
import ContentQuery.Proofs.Contentful.Request
import ContentQuery.Proofs.Echoes
import ContentQuery.Proofs.Groq.Enumeration

/-! Requests do not tell how the sets in a filter are enumerated. -/

namespace ContentQuery.Contentful

open Compile (EchoWritten)
open Value (Reenumerated AllReenumerated)

section Leaf

variable {value value' : Value} (inside : Reenumerated value value')
include inside

/-- A literal has one parameter or none, however its sets are enumerated. -/
theorem echo_parameterOf (field : Value) (operator : Operator) :
    EchoWritten Eq (parameterOf? field operator value) (parameterOf? field operator value') := by
  -- Both values are sent as the same parameter, or neither can be sent.
  unfold parameterOf?
  rcases ok_or_error_of_toOption (Parameter.toOption_ofValue inside) with
    ⟨parameter, sent, sent'⟩ | ⟨fault, fault', sent, sent'⟩
  · rw [sent, sent']
    exact .pure rfl
  · -- Either literal is dropped with a notice, unless it fails for the length of an integer.
    rw [sent, sent']
    exact .bind .dropInvalidValues fun _ _ _ => .pure rfl

/-- A comparison has one entry, however the sets in its literal are enumerated. -/
theorem echo_convertComparison (field : Value) (operator : Operator) (suffix : String) :
    EchoWritten Eq (convertComparison field operator suffix value)
      (convertComparison field operator suffix value') := by
  refine .bind (.of_ensures (ensures_pathOf field operator.symbol)) ?_
  rintro path _ rfl
  cases path with
  | none => exact .pure rfl
  | some name =>
    -- What is made of a parameter does not depend on the literal any more.
    have sent {next : Option Parameter → Compile FilterMap}
        (steady : ∀ parameter, EchoWritten Eq (next parameter) (next parameter)) :
        EchoWritten Eq (parameterOf? field operator value >>= next)
          (parameterOf? field operator value' >>= next) := by
      refine .bind (echo_parameterOf inside field operator) ?_
      rintro parameter _ rfl
      exact steady parameter
    -- Only equalities look for null, which stays null where sets are enumerated anew.
    cases operator with
    | defined | undefined => exact .pure rfl
    | equal | notEqual =>
      cases inside with
      | same =>
        cases value with
        | null => exact .pure rfl
        | _ => exact sent fun parameter => by cases parameter <;> exact .pure rfl
      | _ => exact sent fun parameter => by cases parameter <;> exact .pure rfl
    | _ => exact sent fun parameter => by cases parameter <;> exact .pure rfl

/-- A reference has one entry, however the sets in its literal are enumerated. -/
theorem echo_convertReference (field : Value) :
    EchoWritten Eq (convertReference field value) (convertReference field value') := by
  -- Whether there are several to refer to is a matter of the kind of value.
  have several : value.items?.isSome = value'.items?.isSome := by
    cases inside <;> rfl
  refine .bind (echo_parameterOf inside field .references) ?_
  rintro parameter _ rfl
  cases parameter with
  | none => exact .pure rfl
  | some parameter =>
    dsimp only
    rw [several]
    split
    · split
      · exact .noted (.pure rfl)
      · exact .pure rfl
    · refine .bind (.of_ensures (ensures_pathOf field _)) ?_
      rintro path _ rfl
      cases path with
      | none => exact .pure rfl
      | some path => exact .pure rfl

/-- A leaf has one entry, however the sets in its literal are enumerated. -/
theorem echo_convertLeaf (field : Value) (comparison : Comparison) :
    EchoWritten Eq (convertLeaf field comparison value) (convertLeaf field comparison value') := by
  -- The operator decides what is built, and it is the same in both.
  unfold convertLeaf
  split
  · exact echo_convertReference inside field
  · split
    · exact echo_convertComparison inside field _ _
    · exact .noted (.pure rfl)
  · exact .noted (.pure rfl)

end Leaf

/-- What a value that may hold a set is equal to may hold one as well. -/
theorem isCompound_of_same {value other : Value} (same : (value == other) = true)
    (compound : value.isCompound = true) : other.isCompound = true := by
  -- Values of different kinds are never the same, and a member is the same as nothing.
  have same : value.same other = true := same
  cases value with
  | list | tuple | set | map | node | projection =>
    cases other with
    | list | tuple | set | map | node | projection => rfl
    | _ => cases same
  | «member» => cases other <;> cases same
  | _ => cases compound

/-- Values of which some may hold sets still do so once equal ones are left out. -/
theorem any_isCompound_addNew (known items : List Value) :
    (addNew known items).any Value.isCompound =
      (known.any Value.isCompound || items.any Value.isCompound) := by
  unfold addNew
  induction items generalizing known with
  | nil => rw [List.foldl_nil, List.any_nil, Bool.or_false]
  | cons item rest ih =>
    rw [List.foldl_cons, List.any_cons, ih]
    split
    · rename_i there
      -- An item that is known is equal to a known one, which may hold sets where the item may.
      cases compound : item.isCompound with
      | false => rw [Bool.false_or]
      | true =>
        obtain ⟨other, among, same⟩ := List.contains_iff_exists_mem_beq.mp there
        rw [List.any_eq_true.mpr ⟨other, among, isCompound_of_same same compound⟩, Bool.true_or,
          Bool.true_or]
    · rw [List.any_append, List.any_cons, List.any_nil, Bool.or_false, Bool.or_assoc]

/-- Lists that are one, or of which each holds a value that may hold sets. -/
def SameOrCompound (values values' : List Value) : Prop :=
  values = values' ∨ (values.any Value.isCompound = true ∧ values'.any Value.isCompound = true)

/-- Items that are enumerated anew are the same, or some of them may hold sets. -/
theorem sameOrCompound_of_reenumerated {items items' : List Value} :
    AllReenumerated items items' → SameOrCompound items items'
  -- By induction on the two lists: items that are not compound are equal.
  | .nil => Or.inl rfl
  | .cons first others => by
    unfold SameOrCompound
    rw [List.any_cons, List.any_cons]
    rcases first.eq_or_compound with rfl | ⟨compound, compound'⟩
    · rcases sameOrCompound_of_reenumerated others with rfl | ⟨later, later'⟩
      · exact Or.inl rfl
      · exact Or.inr ⟨by rw [later, Bool.or_true], by rw [later', Bool.or_true]⟩
    · exact Or.inr ⟨by rw [compound, Bool.true_or], by rw [compound', Bool.true_or]⟩

/-- Leaving out equal items keeps lists the same, or with values that may hold sets. -/
theorem SameOrCompound.addNew {known known' items items' : List Value}
    (both : SameOrCompound known known') (inside : SameOrCompound items items') :
    SameOrCompound (addNew known items) (addNew known' items') := by
  -- Something compound is among the values exactly if it was in one of the two lists.
  unfold SameOrCompound
  rw [any_isCompound_addNew, any_isCompound_addNew]
  rcases both with rfl | ⟨compound, compound'⟩
  · rcases inside with rfl | ⟨compound, compound'⟩
    · exact Or.inl rfl
    · exact Or.inr ⟨by rw [compound, Bool.or_true], by rw [compound', Bool.or_true]⟩
  · exact Or.inr ⟨by rw [compound, Bool.true_or], by rw [compound', Bool.true_or]⟩

/-- A branch allows one list of values, or lists of which each cannot be sent. -/
theorem rel_allowedValues (field : Value) {branch branch' : Condition}
    (alike : Condition.Alike enumerations branch branch') :
    Option.Rel SameOrCompound (allowedValues? field branch) (allowedValues? field branch') := by
  -- Two operators name values, the one its operand and the other the items of it.
  have own (values : List Value) : SameOrCompound values values := Or.inl rfl
  cases alike with
  | leaf literals =>
    rename_i other comparison value value'
    have inside : Reenumerated value value' := literals
    have single := sameOrCompound_of_reenumerated (.cons inside .nil)
    cases comparison with
    | unknown word => exact .none
    | known operator =>
      unfold allowedValues?
      dsimp only
      split
      · exact .none
      · cases operator with
        | equal =>
          cases inside with
          | same => exact rel_refl own _
          | _ => exact .some single
        | oneOf =>
          cases inside with
          | same => exact rel_refl own _
          | list inside | tuple inside => exact .some (sameOrCompound_of_reenumerated inside)
          | _ => exact .none
        | _ => exact .none
  | all _ | any _ | not _ => exact .none

/-- Branches allow one list of values together, or lists of which each cannot be sent. -/
theorem rel_allowedTogether (field : Value) {branches branches' : List Condition}
    (alike : Condition.AllAlike enumerations branches branches') :
    Option.Rel SameOrCompound (allowedTogether? field branches)
      (allowedTogether? field branches') := by
  -- The values known so far are general in the induction.
  have through : {branches branches' : List Condition} →
      Condition.AllAlike enumerations branches branches' → (known known' : List Value) →
        SameOrCompound known known' → Option.Rel SameOrCompound
          (branches.foldlM (fun values branch =>
            (allowedValues? field branch).map (addNew values)) known)
          (branches'.foldlM (fun values branch =>
            (allowedValues? field branch).map (addNew values)) known') := by
    intro branches branches' alike
    induction branches generalizing branches' with
    | nil =>
      cases alike
      exact fun _ _ both => .some both
    | cons branch rest ih =>
      cases alike with
      | cons first others =>
        intro known known' both
        rw [List.foldlM_cons, List.foldlM_cons]
        have allowed := rel_allowedValues field first
        revert allowed
        generalize allowedValues? field branch = values
        generalize allowedValues? field _ = values'
        intro allowed
        cases allowed with
        | none => exact .none
        | some inside => exact ih others _ _ (both.addNew inside)
  exact through alike [] [] (Or.inl rfl)

/-- A value that may hold a set cannot be sent in a list. -/
theorem ofItems_compound {values : List Value} (compound : values.any Value.isCompound = true) :
    ∃ fault, Parameter.ofItems values = .error fault := by
  -- A compound value cannot be written as an item.
  obtain ⟨value, among, compound⟩ := List.any_eq_true.mp compound
  have fails := Parameter.item_scalars.eq_none (Value.isScalar_of_compound compound)
  have unsent := Parameter.toOption_ofItems values
  rw [mapM_eq_none among fails, Option.map_none, ite_self] at unsent
  cases made : Parameter.ofItems values with
  | error fault => exact ⟨fault, rfl⟩
  | ok parameter =>
    rw [made] at unsent
    cases unsent

/-- A membership has one entry, however the sets in its values are enumerated. -/
theorem echo_convertMembership (field : Value) {values values' : List Value}
    (both : SameOrCompound values values') :
    EchoWritten Eq (convertMembership field values) (convertMembership field values') := by
  -- Either the same values are sent, or neither list can be.
  refine .bind (.of_ensures (ensures_pathOf field _)) ?_
  rintro path _ rfl
  cases path with
  | none => exact .pure rfl
  | some name =>
    dsimp only
    rcases both with rfl | ⟨compound, compound'⟩
    · split
      · exact .pure rfl
      · exact .written (.noted (.pure rfl))
    · obtain ⟨fault, unsent⟩ := ofItems_compound compound
      obtain ⟨fault', unsent'⟩ := ofItems_compound compound'
      rw [unsent, unsent']
      exact .written (.noted (.pure rfl))

/-- Alternatives across fields are noted alike, or refused alike. -/
theorem echo_noteAcrossFields_alike {branches branches' : List Condition}
    (alike : Condition.AllAlike enumerations branches branches') :
    EchoWritten Eq (noteAcrossFields branches) (noteAcrossFields branches') := by
  unfold noteAcrossFields fieldsOf
  rw [alike.fields_eq]
  exact .bind (.ofExcept (.refl (fun _ => rfl) _)) fun _ _ _ => .degrade

/-- A negation has one entry, however the sets in it are enumerated. -/
theorem echo_convertNegation {inner inner' : Condition}
    (alike : Condition.Alike enumerations inner inner') :
    EchoWritten Eq (convertNegation inner) (convertNegation inner') := by
  have free := alike.alwaysTrue_eq
  cases alike with
  | leaf literals =>
    rename_i field comparison value value'
    -- Only an equality is denied, as an inequality.
    cases comparison with
    | unknown word => exact .noted (.pure rfl)
    | known operator =>
      cases operator with
      | equal => exact echo_convertLeaf literals field (.known .notEqual)
      | _ => exact .noted (.pure rfl)
  | all _ | any _ | not _ =>
    unfold convertNegation
    rw [free]
    split
    · exact .noted (.pure rfl)
    · exact .noted (.pure rfl)

mutual

/-- A condition is converted to one map, however the sets in it are enumerated. -/
theorem echo_convert_alike : {condition condition' : Condition} →
    Condition.Alike enumerations condition condition' →
      EchoWritten Eq (convert condition) (convert condition')
  | _, _, .leaf literals => echo_convertLeaf literals _ _
  | _, _, .all inside => echo_convertInto_alike inside .empty
  | _, _, .any .nil => .noted (.pure rfl)
  | .any (first :: rest), .any (first' :: rest'), .any (.cons alike others) => by
    have firstEcho := echo_convert_alike alike
    have both : Condition.AllAlike enumerations (first :: rest) (first' :: rest') :=
      .cons alike others
    have together := rel_allowedTogether first.field both
    have alone : rest.isEmpty = rest'.isEmpty := by
      cases others <;> rfl
    unfold convert
    rw [both.any_alwaysTrue_eq, alone]
    rw [alike.field_eq] at together ⊢
    -- Of a disjunction, nothing is compiled, or its first branch, or a membership.
    split
    · exact .pure rfl
    · split
      · exact firstEcho
      · revert together
        generalize allowedTogether? first'.field (first :: rest) = allowed
        generalize allowedTogether? first'.field (first' :: rest') = allowed'
        intro together
        cases together with
        | some inside => exact echo_convertMembership _ inside
        | none => exact .bind (echo_noteAcrossFields_alike both) fun _ _ _ => firstEcho
  | _, _, .not inside => echo_convertNegation inside
termination_by structural _ _ alike => alike

/-- Conditions are merged to one map, however the sets in them are enumerated. -/
theorem echo_convertInto_alike : {conditions conditions' : List Condition} →
    Condition.AllAlike enumerations conditions conditions' → (map : FilterMap) →
      EchoWritten Eq (convertInto map conditions) (convertInto map conditions')
  -- By induction on the conditions; what they are converted to is equal, and so is what it is
  -- merged into.
  | _, _, .nil, _ => .pure rfl
  | _, _, .cons first others, map => by
    refine .bind (echo_convert_alike first) ?_
    rintro source _ rfl
    refine .bind (.of_ensures (ensures_merge map source)) ?_
    rintro merged _ rfl
    exact echo_convertInto_alike others merged
termination_by structural _ _ alike => alike

end

/--
Queries whose conditions are alike are compiled to one request, unless one of them is refused for an
integer that is too long.
-/
theorem agree_compile (settings : Settings) (everyLocale : Value) (query query' : Query)
    {own own' : List Condition} (beside : query' = { query with filter := query'.filter })
    (alike : Condition.AllAlike enumerations own own') :
    AgreeUnless (· = .unwritable) (fun compiled compiled' => compiled.query = compiled'.query ∧
        compiled.parameters = compiled'.parameters ∧
          compiled.notices.map Notice.reason = compiled'.notices.map Notice.reason)
      (compile settings everyLocale query own) (compile settings everyLocale query' own') := by
  refine agree_compile_of_echo ?_
  rw [convertQuery_eq, convertQuery_eq, filterOf_eq, filterOf_eq, bind_assoc, bind_assoc]
  have types : noteTypes query' = noteTypes query ∧ startOf query' = startOf query := by
    rw [beside]
    exact ⟨rfl, rfl⟩
  have everywhere := alike.append (Condition.AllAlike.refl settings.globalFilter.conditionList)
  rw [types.1, types.2]
  refine .bind (.of_ensures (ensures_noteTypes query)) fun _ _ _ => ?_
  refine .bind (echo_convertInto_alike everywhere _) ?_
  rintro filter _ rfl
  have rest : finish settings everyLocale query filter =
      finish settings everyLocale query' filter := by
    rw [beside]
    rfl
  rw [← rest]
  exact (Compile.Echo.refl (steady_finish settings everyLocale query filter)).mono fun _ _ same =>
    same ▸ ⟨rfl, rfl⟩

end ContentQuery.Contentful
