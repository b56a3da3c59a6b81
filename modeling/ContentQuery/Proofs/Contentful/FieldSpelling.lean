import ContentQuery.Proofs.Contentful.Attempts
import ContentQuery.Proofs.Contentful.Merging
import ContentQuery.Proofs.Contentful.Paring
import ContentQuery.Proofs.Echoes
import Mathlib.Data.List.Basic

/-! Fields with and without the name of their section: where both spellings compile alike. -/

namespace ContentQuery.Contentful

open Compile (EchoFully)

/-- Whether a name is a field path that leaves the section out, and is no field of metadata. -/
def isBareField (name : String) : Bool :=
  pathGrammar.isPath name && (systemKeys.lookup name).isNone && !hasSection name

/-- The name with its section in front. -/
def sectioned (name : String) : String :=
  "fields." ++ name

section Bare

variable {name : String} (bare : isBareField name = true)
include bare

/-- A bare field is a path. -/
theorem isPath_of_isBareField : pathGrammar.isPath name = true :=
  (Bool.and_eq_true_iff.mp (Bool.and_eq_true_iff.mp bare).1).1

/-- The key of a bare field is its name with the section in front. -/
theorem fieldKey_of_isBareField : fieldKey name = sectioned name := by
  -- A bare field is no system key and has no section yet.
  obtain ⟨rest, unsectioned⟩ := Bool.and_eq_true_iff.mp bare
  have unlisted : systemKeys.lookup name = none :=
    Option.isNone_iff_eq_none.mp (Bool.and_eq_true_iff.mp rest).2
  rw [Bool.not_eq_true'] at unsectioned
  unfold fieldKey
  rw [unlisted]
  simp only [unsectioned, Bool.false_eq_true, if_false]
  rfl

end Bare

/-- A name with its section is the key of the field already. -/
theorem fieldKey_sectioned (name : String) : fieldKey (sectioned name) = sectioned name := by
  -- Metadata is listed under names that open with an underscore.
  have unlisted : systemKeys.lookup (sectioned name) = none := by
    refine List.lookup_eq_none_iff.mpr fun entry member => ?_
    have underscored : ∀ entry ∈ systemKeys, entry.1.toList.head? = some '_' := by decide
    rw [bne_iff_ne]
    intro same
    have opens := underscored entry member
    rw [← same, sectioned, String.toList_append] at opens
    exact absurd opens (by simp)
  have opens : hasSection (sectioned name) = true := by
    simp [hasSection, sectioned, String.toList_append]
  unfold fieldKey
  rw [unlisted]
  simp only [opens, if_true]

/-- A path stays one behind the name of a section. -/
theorem isPath_sectioned {name : String} (valid : pathGrammar.isPath name = true) :
    pathGrammar.isPath (sectioned name) = true := by
  -- There is a character in a path, so that a line break at the end is that of the name.
  have filled : name.toList ≠ [] := by
    intro none_
    rw [PathGrammar.isPath, none_] at valid
    exact absurd valid (by decide)
  have broken : withoutFinalBreak (sectioned name).toList =
      "fields.".toList ++ withoutFinalBreak name.toList := by
    rw [sectioned, String.toList_append, withoutFinalBreak, withoutFinalBreak,
      List.getLast?_append_of_ne_nil _ filled, List.dropLast_append_of_ne_nil filled]
    split <;> rfl
  have opened : "fields.".toList.foldlM pathGrammar.step .opening = some .opening := by decide
  rw [PathGrammar.isPath, PathGrammar.accepts, broken, List.foldlM_append, opened]
  exact valid

section Spelling

variable (chosen : String → Bool)

/-- The names that are chosen get their section, and others stay as they are. -/
def spelling (name : String) : String :=
  if chosen name then sectioned name else name

/-- A field whose name is spelled so; a field that is no text has no name. -/
def respelledField : Value → Value
  | .text name => .text (spelling chosen name)
  | other => other

mutual

/-- A condition whose fields are spelled so. -/
def respelled : Condition → Condition
  | .leaf field comparison value => .leaf (respelledField chosen field) comparison value
  | .all conditions => .all (respelledAll conditions)
  | .any conditions => .any (respelledAll conditions)
  | .not condition => .not (respelled condition)
termination_by structural input => input

/-- Conditions whose fields are spelled so. -/
def respelledAll : List Condition → List Condition
  | [] => []
  | condition :: rest => respelled condition :: respelledAll rest
termination_by structural input => input

end

/-- Alternatives that do not spell a chosen field in both ways. -/
def SpelledApart (branches : List Condition) : Prop :=
  ∀ name, chosen name = true → .text name ∈ branches.map Condition.field →
    .text (sectioned name) ∉ branches.map Condition.field

mutual

/--
Whether no spelling shows in what a condition is converted to: nothing refers through a chosen
field, and no alternatives spell one in both ways. What is dropped does not matter.
-/
def KeepsSpelling : Condition → Prop
  | .leaf field comparison _ =>
    comparison = .known .references → ∀ name, field = .text name → chosen name = false
  | .all conditions => AllKeepSpelling conditions
  | .any [] => True
  | .any (first :: rest) => KeepsSpelling first ∧ SpelledApart chosen (first :: rest)
  | .not _ => True
termination_by structural input => input

/-- Whether no spelling shows in what any of several conditions is converted to. -/
def AllKeepSpelling : List Condition → Prop
  | [] => True
  | condition :: rest => KeepsSpelling condition ∧ AllKeepSpelling rest
termination_by structural input => input

end

/-- Conditions are spelled one by one. -/
theorem respelledAll_eq_map (conditions : List Condition) :
    respelledAll chosen conditions = conditions.map (respelled chosen) := by
  induction conditions with
  | nil => rfl
  | cons condition rest ih => rw [respelledAll, ih, List.map_cons]

/-- The field of a condition is spelled with it. -/
theorem field_respelled (condition : Condition) :
    (respelled chosen condition).field = respelledField chosen condition.field := by
  cases condition <;> rfl

mutual

/-- Spelling does not change whether a condition constrains anything. -/
theorem alwaysTrue_respelled : (condition : Condition) →
    (respelled chosen condition).alwaysTrue = condition.alwaysTrue
  | .leaf _ _ _ => rfl
  | .all conditions => allAlwaysTrue_respelled conditions
  | .any _ => rfl
  | .not _ => rfl
termination_by structural condition => condition

/-- Nor whether any of several conditions does. -/
theorem allAlwaysTrue_respelled : (conditions : List Condition) →
    Condition.allAlwaysTrue (respelledAll chosen conditions) = Condition.allAlwaysTrue conditions
  | [] => rfl
  | condition :: rest => by
    rw [respelledAll, Condition.allAlwaysTrue, Condition.allAlwaysTrue,
      alwaysTrue_respelled condition, allAlwaysTrue_respelled rest]
termination_by structural conditions => conditions

end

/-- A field is null in both spellings or in none. -/
theorem isNull_respelledField (field : Value) :
    (respelledField chosen field).isNull = field.isNull := by
  cases field <;> rfl

/-- A field that is no text has no other spelling. -/
theorem respelledField_eq_self {field : Value} (unnamed : ∀ name, field ≠ .text name) :
    respelledField chosen field = field := by
  cases field with
  | text name => exact absurd rfl (unnamed name)
  | _ => rfl

/-- What is no text is equal to none, from either side. -/
theorem beq_text_eq_false {value : Value} (unnamed : ∀ name, value ≠ .text name) (name : String) :
    (value == .text name) = false ∧ (Value.text name == value) = false := by
  have discrete := Value.isDiscrete_text name
  exact ⟨Bool.eq_false_iff.mpr fun same => unnamed name ((discrete.left _).mp same),
    Bool.eq_false_iff.mpr fun same => unnamed name ((discrete.right _).mp same)⟩

/-- Two names that differ only meet where one of them is the other with its section. -/
theorem spelling_inj {name other : String}
    (apart : chosen name = true → other ≠ sectioned name)
    (apart' : chosen other = true → name ≠ sectioned other) :
    spelling chosen other = spelling chosen name ↔ other = name := by
  -- Two names are spelled alike either both with the section or both without it; one of each kind
  -- would be the case that is set apart.
  refine ⟨fun same => ?_, fun same => congrArg _ same⟩
  unfold spelling at same
  cases here : chosen other with
  | true =>
    cases there : chosen name with
    | true =>
      simp only [here, there, if_true, sectioned, String.append_right_inj] at same
      exact same
    | false =>
      simp only [here, there, if_true, Bool.false_eq_true, if_false] at same
      exact absurd same.symm (apart' here)
  | false =>
    cases there : chosen name with
    | true =>
      simp only [here, there, if_true, Bool.false_eq_true, if_false] at same
      exact absurd same (apart there)
    | false => simpa only [here, there, Bool.false_eq_true, if_false] using same

/-- Fields that are not spelled in both ways are equal in their new spelling where they were. -/
theorem same_respelledField {field other : Value}
    (apart : ∀ name, chosen name = true → ¬ (field = .text name ∧ other = .text (sectioned name)) ∧
      ¬ (other = .text name ∧ field = .text (sectioned name))) :
    (respelledField chosen other == respelledField chosen field) = (other == field) := by
  -- Fields that are no texts are not respelled, and equal no text either.
  by_cases named : ∃ name, field = .text name
  · obtain ⟨name, rfl⟩ := named
    by_cases named' : ∃ name, other = .text name
    · obtain ⟨other, rfl⟩ := named'
      have names : spelling chosen other = spelling chosen name ↔ other = name :=
        spelling_inj chosen (fun picked same => (apart name picked).1 ⟨rfl, congrArg _ same⟩)
          fun picked same => (apart other picked).2 ⟨rfl, congrArg _ same⟩
      rw [Bool.eq_iff_iff]
      refine ((Value.isDiscrete_text _).left _).trans (Iff.trans ?_
        ((Value.isDiscrete_text name).left _).symm)
      simpa only [respelledField, Value.text.injEq] using names
    · have unnamed : ∀ name, other ≠ .text name := fun name same => named' ⟨name, same⟩
      rw [respelledField_eq_self chosen unnamed, (beq_text_eq_false unnamed name).1]
      exact (beq_text_eq_false unnamed _).1
  · have unnamed : ∀ name, field ≠ .text name := fun name same => named ⟨name, same⟩
    rw [respelledField_eq_self chosen unnamed]
    cases other with
    | text name =>
      rw [(beq_text_eq_false unnamed name).2]
      exact (beq_text_eq_false unnamed _).2
    | _ => rfl

end Spelling

section Bare

variable {chosen : String → Bool} (bare : ∀ name, chosen name = true → isBareField name = true)
include bare

/-- Both spellings of a bare field have one key. -/
theorem fieldKey_spelling (name : String) : fieldKey (spelling chosen name) = fieldKey name := by
  -- The key of a bare field has the section, whether it was spelled or not.
  unfold spelling
  split
  · rename_i among
    rw [fieldKey_sectioned, fieldKey_of_isBareField (bare name among)]
  · rfl

/-- Both spellings of a bare field are paths. -/
theorem isPath_spelling (name : String) :
    pathGrammar.isPath (spelling chosen name) = pathGrammar.isPath name := by
  -- A section in front of a path gives a path.
  unfold spelling
  split
  · rename_i among
    have valid := isPath_of_isBareField (bare name among)
    rw [isPath_sectioned valid, valid]
  · rfl

/-- A field is a path in both spellings, or it is noted in both, or refused in both. -/
theorem echo_path (field : Value) (role : String) :
    EchoFully (fun path path' => path' = path.map (spelling chosen)) (pathOf? field role)
      (pathOf? (respelledField chosen field) role) := by
  -- A path is respelled as the field is; anything else is passed over or refused as it was.
  cases field with
  | text name =>
    unfold pathOf? respelledField
    dsimp only
    rw [isPath_spelling bare]
    split
    · exact .pure rfl
    · exact .noted (.pure rfl)
  | null => exact .noted (.pure rfl)
  | _ => exact .refuse

omit bare in
/-- A literal is sent, or noted, whatever the spelling of its field. -/
theorem echo_parameter (field : Value) (operator : Operator) (value : Value) :
    EchoFully Eq (parameterOf? field operator value)
      (parameterOf? (respelledField chosen field) operator value) := by
  unfold parameterOf?
  split
  · exact .pure rfl
  · exact .bind .dropInvalidValue fun _ _ _ => .pure rfl

/-- A comparison has one entry in both spellings of its field. -/
theorem echo_comparison (field : Value) (operator : Operator) (suffix : String) (value : Value) :
    EchoFully Eq (convertComparison field operator suffix value)
      (convertComparison (respelledField chosen field) operator suffix value) := by
  refine .bind (echo_path bare field operator.symbol) fun path path' same => ?_
  subst same
  cases path with
  | none => exact .pure rfl
  | some name =>
    dsimp only [Option.map_some]
    rw [fieldKey_spelling bare]
    -- Existence checks do not look at their literal.
    split
    · exact .pure rfl
    · exact .pure rfl
    · exact .pure rfl
    · exact .pure rfl
    · refine .bind (echo_parameter field operator value) fun parameter parameter' same => ?_
      subst same
      cases parameter with
      | none => exact .pure rfl
      | some parameter => exact .pure rfl

/-- A leaf has one entry in both spellings, unless it refers through a field that is chosen. -/
theorem echo_leaf (field : Value) (comparison : Comparison) (value : Value)
    (unreferred : comparison = .known .references → ∀ name, field = .text name →
      chosen name = false) :
    EchoFully Eq (convertLeaf field comparison value)
      (convertLeaf (respelledField chosen field) comparison value) := by
  -- Every other leaf asks for the key of its field, which both spellings share.
  unfold convertLeaf
  split
  · -- A reference is spelled in one way only.
    have kept : respelledField chosen field = field := by
      cases field with
      | text name => simp [respelledField, spelling, unreferred rfl name rfl]
      | _ => rfl
    rw [kept]
    exact .of_ensures (ensures_atMostOne_reference field value)
  · split
    · exact echo_comparison bare field _ _ value
    · exact .noted (.pure rfl)
  · exact .noted (.pure rfl)

/-- A membership has one entry in both spellings. -/
theorem echo_membership (field : Value) (values : List Value) :
    EchoFully Eq (convertMembership field values)
      (convertMembership (respelledField chosen field) values) := by
  -- A membership asks for the key of its field alone.
  refine .bind (echo_path bare field _) fun path path' same => ?_
  subst same
  cases path with
  | none => exact .pure rfl
  | some name =>
    dsimp only [Option.map_some]
    rw [fieldKey_spelling bare]
    split
    · exact .pure rfl
    · exact .asked (.noted (.pure rfl))

omit bare in
/-- What a branch allows for a field does not change where both are spelled anew. -/
theorem allowedValues_respelled {branches : List Condition} (apart : SpelledApart chosen branches)
    {first branch : Condition} (here : first ∈ branches) (there : branch ∈ branches) :
    allowedValues? (respelledField chosen first.field) (respelled chosen branch) =
      allowedValues? first.field branch := by
  -- A branch counts when its field is that of the first; no two fields are taken for one another by
  -- the spelling.
  cases branch with
  | leaf other comparison value =>
    have among := List.mem_map_of_mem (f := Condition.field) here
    have among' : other ∈ branches.map Condition.field := List.mem_map_of_mem there
    have same : (respelledField chosen other == respelledField chosen first.field) =
        (other == first.field) := by
      refine same_respelledField chosen fun name picked => ⟨?_, ?_⟩
      · rintro ⟨same, rfl⟩
        exact apart name picked (same ▸ among) among'
      · rintro ⟨rfl, same⟩
        exact apart name picked among' (same ▸ among)
    cases comparison with
    | known operator =>
      unfold respelled allowedValues?
      dsimp only
      rw [same, isNull_respelledField]
    | unknown word => rfl
  | all _ | any _ | not _ => rfl

omit bare in
/-- What alternatives allow together does not change either. -/
theorem allowedTogether_respelled {branches : List Condition} (apart : SpelledApart chosen branches)
    {first : Condition} (here : first ∈ branches) :
    allowedTogether? (respelledField chosen first.field) (respelledAll chosen branches) =
      allowedTogether? first.field branches := by
  unfold allowedTogether?
  rw [respelledAll_eq_map]
  -- The branches are gone through, the values known so far being general.
  have through (rest : List Condition) (within : rest ⊆ branches) (known : List Value) :
      (rest.map (respelled chosen)).foldlM (fun values branch =>
          (allowedValues? (respelledField chosen first.field) branch).map (addNew values)) known =
        rest.foldlM (fun values branch =>
          (allowedValues? first.field branch).map (addNew values)) known := by
    induction rest generalizing known with
    | nil => rfl
    | cons branch rest ih =>
      obtain ⟨there, later⟩ := List.cons_subset.mp within
      rw [List.map_cons, List.foldlM_cons, List.foldlM_cons,
        allowedValues_respelled apart here there]
      exact bind_congr fun known => ih later known
  exact through branches (List.Subset.refl _) []

omit bare in
/-- The fields of alternatives are texts in both spellings, or refused in both. -/
theorem agree_fieldsOf (branches : List Condition) :
    ResultsAgree (fun _ _ => True) (fieldsOf branches)
      (fieldsOf (respelledAll chosen branches)) := by
  -- Whether a field is mistyped does not hang on its spelling.
  have mistyped (field : Value) : (respelledField chosen field).isMistyped = field.isMistyped := by
    cases field <;> rfl
  have same : refusal? (.across (respelledAll chosen branches)) = refusal? (.across branches) := by
    simp only [refusal?, respelledAll_eq_map, List.any_map, Function.comp_def, field_respelled,
      mistyped]
  have decided := decides_fieldsOf branches
  have decided' := decides_fieldsOf (respelledAll chosen branches)
  rw [same] at decided'
  -- What is refused is refused in an empty context, and what is given is given there.
  cases told : refusal? (.across branches) with
  | some fault =>
    rw [told] at decided decided'
    have refused {read : Except Fault (List String)}
        (ran : (Compile.ofExcept read).Refuses fault) : ∃ other, read = .error other := by
      cases read with
      | error other => exact ⟨other, rfl⟩
      | ok _ => cases ran .empty
    obtain ⟨_, ended⟩ := refused decided
    obtain ⟨_, ended'⟩ := refused decided'
    rw [ended, ended']
    exact .refused
  | none =>
    rw [told] at decided decided'
    obtain ⟨_, _, gives, -⟩ := decided
    obtain ⟨_, _, gives', -⟩ := decided'
    obtain ⟨_, given, -⟩ := exists_of_map (gives .empty)
    obtain ⟨_, given', -⟩ := exists_of_map (gives' .empty)
    rw [given, given']
    exact .gave trivial

omit bare in
/-- Alternatives across fields are noted in both spellings, or refused in both. -/
theorem echo_noteAcrossFields (branches : List Condition) :
    EchoFully Eq (noteAcrossFields branches) (noteAcrossFields (respelledAll chosen branches)) :=
  .bind (.ofExcept (agree_fieldsOf branches)) fun _ _ _ => .degrade

/-- A negation has one entry in both spellings. -/
theorem echo_negation (inner : Condition) :
    EchoFully Eq (convertNegation inner) (convertNegation (respelled chosen inner)) := by
  unfold convertNegation
  rw [alwaysTrue_respelled]
  split
  · exact .noted (.pure rfl)
  · cases inner with
    | leaf field comparison value =>
      -- Only an equality is denied, as an inequality and so as no reference.
      unfold respelled
      by_cases equality : comparison = .known .equal
      · subst equality
        exact echo_leaf bare field _ value nofun
      · split
        · exact absurd ‹_› (by simp_all)
        · split
          · exact absurd ‹_› (by simp_all)
          · exact .noted (.pure rfl)
    | all _ | any _ | not _ => exact .noted (.pure rfl)

end Bare

mutual

/-- A condition is converted to one map in both spellings. -/
theorem echo_convert {chosen : String → Bool}
    (bare : ∀ name, chosen name = true → isBareField name = true) :
    (condition : Condition) → KeepsSpelling chosen condition →
      EchoFully Eq (convert condition) (convert (respelled chosen condition))
  | .leaf field comparison value, keeps => echo_leaf bare field comparison value keeps
  | .all conditions, keeps => echo_convertInto bare .empty conditions keeps
  | .any [], _ => .noted (.pure rfl)
  | .any (first :: rest), ⟨keeps, apart⟩ => by
    have firstEcho := echo_convert bare first keeps
    have together := allowedTogether_respelled apart List.mem_cons_self
    have free : (respelledAll chosen (first :: rest)).any Condition.alwaysTrue =
        (first :: rest).any Condition.alwaysTrue := by
      rw [respelledAll_eq_map, List.any_map]
      exact congrArg _ (funext fun branch => alwaysTrue_respelled chosen branch)
    have alone : (respelledAll chosen rest).isEmpty = rest.isEmpty := by
      rw [respelledAll_eq_map, List.isEmpty_map]
    unfold respelled
    rw [respelledAll] at free together ⊢
    unfold convert
    rw [free, alone, field_respelled, together]
    -- Of a disjunction, nothing is compiled, or its first branch, or a membership.
    split
    · exact .pure rfl
    · split
      · exact firstEcho
      · split
        · exact echo_membership bare first.field _
        · exact .bind (echo_noteAcrossFields (first :: rest)) fun _ _ _ => firstEcho
  | .not inner, _ => echo_negation bare inner
termination_by structural condition => condition

/-- Conditions are merged to one map in both spellings. -/
theorem echo_convertInto {chosen : String → Bool}
    (bare : ∀ name, chosen name = true → isBareField name = true) (map : FilterMap) :
    (conditions : List Condition) → AllKeepSpelling chosen conditions →
      EchoFully Eq (convertInto map conditions) (convertInto map (respelledAll chosen conditions))
  -- By induction on the conditions, each merged into what the former gave.
  | [], _ => .pure rfl
  | condition :: rest, ⟨keeps, later⟩ => by
    refine .bind (echo_convert bare condition keeps) fun source source' same => ?_
    subst same
    refine .bind (.of_ensures (ensures_merge map source)) fun merged merged' same => ?_
    subst same
    exact echo_convertInto bare merged rest later
termination_by structural conditions => conditions

end

/-- An entry of a sort order that has the field of another spelled so, and its direction. -/
def SortsAlike (chosen : String → Bool) (entry entry' : Value) : Prop :=
  entry'.sortField = entry.sortField.map (respelledField chosen) ∧
    entry'.sortDirection = entry.sortDirection

/-- A query that is another one with fields of its filter and of its sort order spelled so. -/
structure SpelledQuery (compiler : Compiler) (chosen : String → Bool) (query query' : Query)
    (own : List Condition) : Prop where
  /-- The conditions of the filter, as nodes or as maps, are read as these. -/
  reads : compiler.conditionsOf query = .ok own
  reads' : compiler.conditionsOf query' = .ok (respelledAll chosen own)
  sorts : List.Forall₂ (SortsAlike chosen) query.order query'.order
  /-- The queries are the same beside their filters and their sort orders. -/
  beside : query' = { query with filter := query'.filter, order := query'.order }

section Query

variable {chosen : String → Bool} (bare : ∀ name, chosen name = true → isBareField name = true)
include bare

/-- A sort order has one list of clauses in both spellings. -/
theorem echo_orderClauses {entries entries' : List Value}
    (sorts : List.Forall₂ (SortsAlike chosen) entries entries') :
    EchoFully Eq (orderClauses entries) (orderClauses entries') := by
  -- By induction on the entries, whose fields may be respelled and whose directions may not.
  induction sorts with
  | nil => exact .pure rfl
  | @cons entry entry' rest rest' alike _ ih =>
    obtain ⟨field, direction⟩ := alike
    have joined (clause : List String) : EchoFully Eq
        (do return clause ++ (← orderClauses rest)) (do return clause ++ (← orderClauses rest')) :=
      .bind ih fun later later' same => .pure (by rw [same])
    have fields : ResultsAgree (fun field field' => field' = respelledField chosen field)
        entry.sortField entry'.sortField := by
      rw [field]
      cases entry.sortField with
      | error _ => exact .refused
      | ok _ => exact .gave rfl
    unfold orderClauses
    refine .bind (.ofExcept fields) fun field field' same => ?_
    subst same
    refine .bind (echo_path bare field "order") fun path path' same => ?_
    subst same
    cases path with
    | none => exact joined []
    | some path =>
      dsimp only [Option.map_some]
      rw [fieldKey_spelling bare, direction]
      refine .bind (.ofExcept (.refl (fun _ => rfl) _)) fun way way' same => ?_
      subst same
      exact joined [_]

variable {settings : Settings} {everyLocale : Value} {query query' : Query}
  {own : List Condition}
  (spells : SpelledQuery (.contentful settings everyLocale) chosen query query' own)
include spells

/-- What follows the filter is one in both spellings. -/
theorem echo_finish (filter : FilterMap) :
    EchoFully Eq (finish settings everyLocale query filter)
      (finish settings everyLocale query' filter) := by
  -- Of all the options only the order names fields in either spelling.
  have ordered := echo_orderClauses bare spells.sorts
  rw [spells.beside]
  have options : EchoFully Eq (optionsOf settings everyLocale query) (optionsOf settings everyLocale
      { query with filter := query'.filter, order := query'.order }) := by
    refine .bind (.refl (steady_selectionOf settings query)) fun selection selection' same => ?_
    subst same
    refine .bind ordered fun clauses clauses' same => ?_
    subst same
    refine .bind (.refl (steady_windowOf settings query)) fun window window' same => ?_
    subst same
    refine .bind (.refl (steady_localeOf settings everyLocale query)) fun locale locale' same => ?_
    subst same
    refine .bind (.refl (steady_includeOf settings query _)) fun depth depth' same => ?_
    subst same
    exact .pure rfl
  refine .bind options fun beside beside' same => ?_
  subst same
  refine .bind (.refl (steady_passThrough _ _ _ _ _)) fun parameters parameters' same => ?_
  subst same
  exact .pure rfl

/-- A query is converted to one request in both spellings. -/
theorem echo_convertQuery (keeps : AllKeepSpelling chosen own) :
    EchoFully Eq (convertQuery settings everyLocale query own)
      (convertQuery settings everyLocale query' (respelledAll chosen own)) := by
  rw [convertQuery_eq, convertQuery_eq, filterOf_eq, filterOf_eq, bind_assoc, bind_assoc]
  -- The types are those of both queries, and the global conditions come behind.
  have types : noteTypes query' = noteTypes query ∧ startOf query' = startOf query := by
    rw [spells.beside]
    exact ⟨rfl, rfl⟩
  rw [types.1, types.2, convertInto_append, convertInto_append, bind_assoc, bind_assoc]
  refine .bind (.of_ensures (ensures_noteTypes query)) fun _ _ _ => ?_
  refine .bind (echo_convertInto bare _ own keeps) fun merged merged' same => ?_
  subst same
  have everything : Closed fun _ => True := ⟨fun _ => trivial, fun _ _ => trivial⟩
  refine .bind (.of_ensures (holds_convertInto everything _ trivial)) fun filter filter' same => ?_
  subst same
  exact echo_finish bare spells filter

end Query

/-- A reference through a path is sent where its literal can be. -/
theorem convertReference_of_path {name : String} (valid : pathGrammar.isPath name = true)
    {value : Value} {parameter : Parameter} (given : Parameter.ofValue value = .ok parameter) :
    convertReference (.text name) value =
      pure (single ("fields." ++ name ++ ".sys.id" ++ if value.items?.isSome then "[in]" else "")
        parameter) := by
  -- Of a path the reference is built beside the key, with the section put in front once more.
  have named : pathOf? (.text name) Operator.references.symbol = pure (some name) := by
    simp [pathOf?, valid]
  have sent : parameterOf? (.text name) .references value = pure (some parameter) := by
    simp [parameterOf?, given]
  unfold convertReference
  rw [sent, pure_bind]
  dsimp only
  rw [show (Value.text name).isNull = false from rfl, if_neg Bool.false_ne_true, named, pure_bind]

/-- A reference through a bare field is sent under another key where the section is spelled out. -/
theorem reference_sectioned {name : String} (bare : isBareField name = true) {value : Value}
    {context after : Context} {map : FilterMap}
    (ran : convert (.leaf (.text name) (.known .references) value) context = .ok (map, after))
    (silent : after.notices = context.notices) :
    ∃ suffix parameter, map = single (sectioned name ++ suffix) parameter ∧
      convert (.leaf (.text (sectioned name)) (.known .references) value) context =
        .ok (single (sectioned (sectioned name) ++ suffix) parameter, after) := by
  -- A silent conversion wrote its parameter under the section and the field, which here has a
  -- section already.
  obtain ⟨notices, rfl, -, outcome⟩ := (ensures_fieldReference name value).of_run ran
  have none_ : notices = [] := by simpa [Context.extend] using silent
  subst none_
  rcases outcome with lost | ⟨parameter, given, rfl⟩
  · exact absurd rfl lost.ne_nil
  · have valid := isPath_sectioned (isPath_of_isBareField bare)
    refine ⟨".sys.id" ++ if value.items?.isSome then "[in]" else "", parameter, ?_, ?_⟩
    · rw [← String.append_assoc]
      rfl
    · show convertReference (.text (sectioned name)) value context = _
      rw [convertReference_of_path valid given, ← String.append_assoc, Context.extend_nil]
      rfl

/-- Whether two outputs are requests with one filter and the same parameters. -/
def SameRequest (output output' : Output) : Prop :=
  ∃ compiled compiled', output = .request compiled ∧ output' = .request compiled' ∧
    compiled.query = compiled'.query ∧ compiled.parameters = compiled'.parameters

/--
Spelling out the section of bare fields, in all leaves and sort keys that use them, changes neither
the filter nor the parameters of a request, and a query is refused in both spellings or in none.
This holds where no alternatives spell such a field in both ways, and nothing refers through one. A
reference gets the section once more where it is spelled out, and so another key.
-/
theorem section_spelling_irrelevant {settings : Settings} {everyLocale : Value}
    {chosen : String → Bool} {query query' : Query} {own : List Condition}
    (bare : ∀ name, chosen name = true → isBareField name = true)
    (spells : SpelledQuery (.contentful settings everyLocale) chosen query query' own) :
    (AllKeepSpelling chosen own → ResultsAgree SameRequest
      ((Compiler.contentful settings everyLocale).compileQuery query)
      ((Compiler.contentful settings everyLocale).compileQuery query')) ∧
    ∀ name, chosen name = true → ∀ value context after map,
      convert (.leaf (.text name) (.known .references) value) context = .ok (map, after) →
        after.notices = context.notices →
          ∃ suffix parameter, map = single (sectioned name ++ suffix) parameter ∧
            convert (.leaf (.text (sectioned name)) (.known .references) value) context =
              .ok (single (sectioned (sectioned name) ++ suffix) parameter, after) := by
  refine ⟨fun keeps => ?_, fun name picked value context after map ran silent =>
    reference_sectioned (bare name picked) ran silent⟩
  have echo := echo_convertQuery bare spells keeps
  have parts : EchoFully (fun result result' => result.1 = result'.1 ∧ result.2 = result'.2)
      (convertQuery settings everyLocale query own)
      (convertQuery settings everyLocale query' (respelledAll chosen own)) :=
    echo.mono fun _ _ same => ⟨congrArg Prod.fst same, congrArg Prod.snd same⟩
  rw [Compiler.compileQuery_eq, Compiler.compileQuery_eq, spells.reads, spells.reads']
  -- What was compiled is wrapped as the output of the compiler.
  exact ((agree_compile_of_echo parts).map fun request request' same =>
    ⟨request, request', rfl, rfl, same.1, same.2.1⟩).agree

/-- A query for posts by their title and tags, with the fields spelled in one of two ways. -/
def titledQuery (spell : String → String) : Query :=
  { Query.everything with
    filter := [.leaf (.text (spell "title")) (.text "match") (.text "lean"),
      .node .null .null .null .null
        (.list [.leaf (.text (spell "tags")) (.text "==") (.text "a"),
          .leaf (.text (spell "tags")) (.text "in") (.list [.text "b", .text "a"])]) .null]
    order := [.sortKey ⟨spell "title", .descending⟩] }

/-- Both fields may be spelled with their section. -/
theorem section_spelling_irrelevant_titled :
    ∃ output, (Compiler.contentful Settings.standard (.bool false)).compileQuery
        (titledQuery id) = .ok output ∧
      ∃ output', (Compiler.contentful Settings.standard (.bool false)).compileQuery
        (titledQuery sectioned) = .ok output' ∧ SameRequest output output' := by
  obtain ⟨output, built⟩ : ∃ output, (Compiler.contentful Settings.standard
      (.bool false)).compileQuery (titledQuery id) = .ok output := ⟨_, rfl⟩
  have bare : ∀ name, (["title", "tags"].contains name) = true → isBareField name = true := by
    intro name among
    simp only [List.contains_cons, List.contains_nil, Bool.or_false, Bool.or_eq_true,
      beq_iff_eq] at among
    rcases among with rfl | rfl <;> decide
  have spells : SpelledQuery (.contentful Settings.standard (.bool false))
      (["title", "tags"].contains ·) (titledQuery id) (titledQuery sectioned)
      [.leaf (.text "title") (.known .matches) (.text "lean"),
        .any [.leaf (.text "tags") (.known .equal) (.text "a"),
          .leaf (.text "tags") (.known .oneOf) (.list [.text "b", .text "a"])]] :=
    ⟨rfl, rfl, .cons ⟨rfl, rfl⟩ .nil, rfl⟩
  -- The alternatives are both on the tags, and nothing is referred to.
  have keeps : AllKeepSpelling (["title", "tags"].contains ·)
      [.leaf (.text "title") (.known .matches) (.text "lean"),
        .any [.leaf (.text "tags") (.known .equal) (.text "a"),
          .leaf (.text "tags") (.known .oneOf) (.list [.text "b", .text "a"])]] := by
    refine ⟨nofun, ⟨nofun, fun name among _ both => ?_⟩, trivial⟩
    have tags : sectioned name = "tags" := by simpa [Condition.field] using both
    have opens := congrArg (fun text : String => text.toList.head?) tags
    simp [sectioned, String.toList_append] at opens
  obtain ⟨output', built', same⟩ :=
    ((section_spelling_irrelevant bare spells).1 keeps).of_ok built
  exact ⟨output, built, output', built', same⟩

/-- A query for what refers to a document through a field. -/
def referringQuery (field : String) : Query :=
  { Query.everything with filter := [.leaf (.text field) (.text "references") (.text "a1")] }

/-- A reference through a bare field has another key where its section is spelled out. -/
theorem reference_key_sectioned_twice :
    ∃ compiled compiled', isBareField "author" = true ∧
      (Compiler.contentful Settings.standard (.bool false)).compileQuery
        (referringQuery "author") = .ok (.request compiled) ∧
      (Compiler.contentful Settings.standard (.bool false)).compileQuery
        (referringQuery "fields.author") = .ok (.request compiled') ∧
      compiled.query = single "fields.author.sys.id" (.text "a1") ∧
        compiled'.query = single "fields.fields.author.sys.id" (.text "a1") :=
  ⟨_, _, rfl, rfl, rfl, rfl, rfl⟩

end ContentQuery.Contentful
