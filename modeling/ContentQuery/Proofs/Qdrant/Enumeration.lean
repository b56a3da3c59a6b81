import ContentQuery.Proofs.Alike.Filter
import ContentQuery.Proofs.Echoes
import ContentQuery.Proofs.GlobalConditions
import ContentQuery.Proofs.Groq.Enumeration
import ContentQuery.Proofs.Qdrant.Preservation

/-! Scrolls tell how the sets in a filter are enumerated in the order of identifiers and clauses. -/

namespace ContentQuery.Qdrant

open Compile (EchoWritten)
open Value (Reenumerated AllReenumerated SendsScalars)

namespace Clause

mutual

/-- A clause whose identifiers, or whose clauses inside, stand in any order. -/
inductive Rearranged : Clause → Clause → Prop
  | same (clause : Clause) : Rearranged clause clause
  | hasId {ids ids' : List PointId} (moved : ids.Perm ids') :
    Rearranged (.hasId ids) (.hasId ids')
  | filter {must must' should should' mustNot mustNot' : List Clause}
    (required : AllRearranged must must') (alternatives : AllRearranged should should')
    (excluded : AllRearranged mustNot mustNot') :
    Rearranged (.filter must should mustNot) (.filter must' should' mustNot')

/-- Clauses in any order, each of them with its parts in any order. -/
inductive AllRearranged : List Clause → List Clause → Prop
  | nil : AllRearranged [] []
  | cons {clause clause' : Clause} {rest rest' : List Clause} (first : Rearranged clause clause')
    (others : AllRearranged rest rest') : AllRearranged (clause :: rest) (clause' :: rest')
  | swap (first second : Clause) (rest : List Clause) :
    AllRearranged (first :: second :: rest) (second :: first :: rest)
  | trans {clauses between clauses' : List Clause} (earlier : AllRearranged clauses between)
    (later : AllRearranged between clauses') : AllRearranged clauses clauses'

end

/-- Clauses stand in their own order. -/
theorem AllRearranged.refl (clauses : List Clause) : AllRearranged clauses clauses := by
  induction clauses with
  | nil => exact .nil
  | cons clause rest ih => exact .cons (.same clause) ih

/-- Clauses that only change their places are rearranged. -/
theorem AllRearranged.of_perm {clauses clauses' : List Clause} (moved : clauses.Perm clauses') :
    AllRearranged clauses clauses' := by
  -- By induction on how the list was permuted.
  induction moved with
  | nil => exact .nil
  | cons clause _ ih => exact .cons (.same clause) ih
  | swap first second rest => exact .swap second first rest
  | trans _ _ ih ih' => exact .trans ih ih'

/-- Rearranged clauses are as many. -/
theorem AllRearranged.length_eq {clauses clauses' : List Clause} :
    AllRearranged clauses clauses' → clauses.length = clauses'.length
  -- By induction on how the list was rearranged.
  | .nil => rfl
  | .cons _ others => congrArg (· + 1) others.length_eq
  | .swap _ _ _ => rfl
  | .trans earlier later => earlier.length_eq.trans later.length_eq

/-- Rearranged clauses may stand in front of others. -/
theorem AllRearranged.before {clauses clauses' : List Clause} (others : List Clause) :
    AllRearranged clauses clauses' → AllRearranged (clauses ++ others) (clauses' ++ others)
  -- By induction on how the list was rearranged; what follows it stays where it is.
  | .nil => .refl others
  | .cons first later => .cons first (later.before others)
  | .swap first second rest => .swap first second (rest ++ others)
  | .trans earlier later => .trans (earlier.before others) (later.before others)

/-- Rearranged clauses may be followed by rearranged ones. -/
theorem AllRearranged.append {clauses clauses' others others' : List Clause}
    (front : AllRearranged clauses clauses') (behind : AllRearranged others others') :
    AllRearranged (clauses ++ others) (clauses' ++ others') := by
  -- The clauses in front move first, and those behind them afterwards.
  refine .trans (front.before others) ?_
  clear front
  induction clauses' with
  | nil => exact behind
  | cons clause rest ih => exact .cons (.same clause) ih

/-- Whether points have one of the identifiers that are asked for, in whatever order. -/
def IgnoresOrder (truth : Clause → Prop) : Prop :=
  ∀ ids ids', ids.Perm ids' → (truth (.hasId ids) ↔ truth (.hasId ids'))

mutual

/-- A clause finds the same points in every arrangement. -/
theorem Rearranged.holds_iff {truth : Clause → Prop} (ignores : IgnoresOrder truth) :
    {clause clause' : Clause} → Rearranged clause clause' →
      (clause.Holds truth ↔ clause'.Holds truth)
  -- By induction on how the clause was rearranged. Only a list of identifiers is read in order,
  -- which the meaning of the leaves ignores.
  | _, _, .same _ => Iff.rfl
  | _, _, .hasId moved => ignores _ _ moved
  | .filter must should mustNot, .filter must' should' mustNot',
      .filter required alternatives excluded => by
    have all := required.all_iff ignores
    have any := alternatives.any_iff ignores
    have none_ := excluded.any_iff ignores
    -- Whether there are alternatives at all is a matter of their number.
    have some_ : should ≠ [] ↔ should' ≠ [] := by
      rw [← List.length_pos_iff, ← List.length_pos_iff, alternatives.length_eq]
    unfold Holds
    rw [all, any, none_, some_]
termination_by structural _ _ rearranged => rearranged

/-- All clauses hold in every arrangement, or in none. -/
theorem AllRearranged.all_iff {truth : Clause → Prop} (ignores : IgnoresOrder truth) :
    {clauses clauses' : List Clause} → AllRearranged clauses clauses' →
      (AllHold truth clauses ↔ AllHold truth clauses')
  -- By induction on how the list was rearranged, together with its clauses.
  | _, _, .nil => Iff.rfl
  | _, _, .cons first others => and_congr (first.holds_iff ignores) (others.all_iff ignores)
  | _, _, .swap _ _ _ => and_left_comm
  | _, _, .trans earlier later => (earlier.all_iff ignores).trans (later.all_iff ignores)
termination_by structural _ _ rearranged => rearranged

/-- One of the clauses holds in every arrangement, or in none. -/
theorem AllRearranged.any_iff {truth : Clause → Prop} (ignores : IgnoresOrder truth) :
    {clauses clauses' : List Clause} → AllRearranged clauses clauses' →
      (AnyHolds truth clauses ↔ AnyHolds truth clauses')
  -- By induction on how the list was rearranged, together with its clauses.
  | _, _, .nil => Iff.rfl
  | _, _, .cons first others => or_congr (first.holds_iff ignores) (others.any_iff ignores)
  | _, _, .swap _ _ _ => or_left_comm
  | _, _, .trans earlier later => (earlier.any_iff ignores).trans (later.any_iff ignores)
termination_by structural _ _ rearranged => rearranged

end

end Clause

/-- Clauses that are rearranged, and the same where no order of a set is read. -/
def Settled (hidden : Prop) (clause clause' : Clause) : Prop :=
  Clause.Rearranged clause clause' ∧ (hidden → clause = clause')

/-- Lists of clauses that are rearranged, and the same where no order of a set is read. -/
def AllSettled (hidden : Prop) (clauses clauses' : List Clause) : Prop :=
  Clause.AllRearranged clauses clauses' ∧ (hidden → clauses = clauses')

/-- What a condition converts to, in two enumerations of its sets. -/
inductive Converted.Settled (hidden : Prop) : Converted → Converted → Prop
  | dropped : Settled hidden .dropped .dropped
  | unconstrained : Settled hidden .unconstrained .unconstrained
  | clause {clause clause' : Clause} (settled : Qdrant.Settled hidden clause clause') :
    Settled hidden (.clause clause) (.clause clause')

/-- Two conversions of a literal: both give related results, or neither gives one. -/
inductive Outcome {α : Type} (relation : α → α → Prop) :
    Except BoundFault α → Except BoundFault α → Prop
  | gave {given given' : α} (related : relation given given') :
    Outcome relation (.ok given) (.ok given')
  | unsuited {fault fault' : FormatFault} :
    Outcome relation (.error (.unsuited fault)) (.error (.unsuited fault'))
  | overflow : Outcome relation (.error .overflow) (.error .overflow)

namespace Outcome

variable {α β : Type} {relation : α → α → Prop} {result result' : Except BoundFault α}

/-- A conversion gives what it gives. -/
theorem refl (reflexive : ∀ given, relation given given) (result : Except BoundFault α) :
    Outcome relation result result := by
  -- Both faults agree with themselves.
  cases result with
  | ok given => exact .gave (reflexive given)
  | error fault =>
    cases fault with
    | unsuited fault => exact .unsuited
    | overflow => exact .overflow

/-- What is made of related results is related. -/
theorem bind {final : β → β → Prop} {next next' : α → Except BoundFault β}
    (outcome : Outcome relation result result')
    (then_ : ∀ given given', relation given given' → Outcome final (next given) (next' given')) :
    Outcome final (result >>= next) (result' >>= next') := by
  -- Either side fails in the same way, whatever comes behind.
  cases outcome with
  | gave related => exact then_ _ _ related
  | unsuited => exact .unsuited
  | overflow => exact .overflow

/-- Where only unsuited literals are refused, the results tell the outcome. -/
theorem of_toOption (unsuited : ∀ fault, result = .error fault → ∃ cause, fault = .unsuited cause)
    (unsuited' : ∀ fault, result' = .error fault → ∃ cause, fault = .unsuited cause)
    (related : Option.Rel relation result.toOption result'.toOption) :
    Outcome relation result result' := by
  -- Two failures agree as soon as neither is an overflow, which is all that is known of them.
  cases result with
  | error fault =>
    cases result' with
    | error fault' =>
      obtain ⟨cause, rfl⟩ := unsuited fault rfl
      obtain ⟨cause', rfl⟩ := unsuited' fault' rfl
      exact .unsuited
    | ok given' => cases related
  | ok given =>
    cases result' with
    | error fault' => cases related
    | ok given' =>
      cases related with
      | some related => exact .gave related

end Outcome

/-- Whether a value is a set. -/
def isSet : Value → Bool
  | .set _ _ => true
  | _ => false

/-- Whether a comparison reads the items of a set in the order that they are enumerated in. -/
def readsOrder (field : Value) (comparison : Comparison) (value : Value) : Bool :=
  match field, comparison with
  -- The identifier of a point is looked up among the items, and a payload key has to hold each.
  | .text path, .known operator =>
    isSet value && (if path = "_id" then operator = .oneOf || operator = .noneOf
      else operator = .containsAll)
  | _, _ => false

section Leaf

variable {α : Type} {send : Value → Option α}

/-- Values in another order are sent in that order. -/
theorem rel_mapM_of_perm {items items' : List Value} (moved : items.Perm items') :
    Option.Rel List.Perm (items.mapM send) (items'.mapM send) := by
  -- By induction on the permutation.
  induction moved with
  | nil => exact .some (.refl _)
  | cons item _ ih =>
    rw [List.mapM_cons, List.mapM_cons]
    cases send item with
    | none => exact .none
    | some given =>
      revert ih
      generalize List.mapM send _ = sent
      generalize List.mapM send _ = sent'
      intro ih
      cases ih with
      | none => exact .none
      | some moved => exact .some (moved.cons given)
  | swap first second rest =>
    simp only [List.mapM_cons]
    -- Both orders give nothing where one of the three parts does.
    cases send first with
    | none => cases send second <;> exact .none
    | some given =>
      cases send second with
      | none => exact .none
      | some given' =>
        cases rest.mapM send with
        | none => exact .none
        | some others => exact .some (.swap _ _ _)
  | trans _ _ ih ih' =>
    revert ih ih'
    generalize List.mapM send _ = sent
    generalize List.mapM send _ = sent'
    generalize List.mapM send _ = sent''
    intro ih ih'
    cases ih with
    | none => exact ih'
    | some moved =>
      cases ih' with
      | some moved' => exact .some (moved.trans moved')

/-- The items of a literal are sent in some order, and in their own one where it is no set. -/
theorem rel_itemsOrSelf (scalars : SendsScalars send) {value value' : Value}
    (inside : Reenumerated value value') :
    Option.Rel (fun sent sent' => sent.Perm sent' ∧
        (isSet value = false → sent = sent'))
      ((itemsOrSelf value).mapM send) ((itemsOrSelf value').mapM send) := by
  -- A set is listed in the order of its enumeration, so that only there the items can be shuffled;
  -- anything else lists the same items, or itself.
  have equal {sent sent' : Option (List α)} (same : sent = sent') :
      Option.Rel (fun sent sent' => sent.Perm sent' ∧
        (isSet value = false → sent = sent')) sent sent' := by
    subst same
    exact rel_refl (fun _ => ⟨.refl _, fun _ => rfl⟩) sent
  have shuffled {sent sent' : Option (List α)} (moved : Option.Rel List.Perm sent sent')
      (listed : isSet value = true) :
      Option.Rel (fun sent sent' => sent.Perm sent' ∧
        (isSet value = false → sent = sent')) sent sent' := by
    cases moved with
    | none => exact .none
    | some moved => exact .some ⟨moved, fun other => nomatch listed.symm.trans other⟩
  have single := equal (scalars.mapM_eq (.cons inside .nil))
  cases inside with
  | same => exact equal rfl
  | list inside | tuple inside => exact equal (scalars.mapM_eq inside)
  | set moved inside =>
    -- The members are first shuffled and then exchanged for others that send the same.
    rename_i items between items'
    have perm : Option.Rel List.Perm (items.mapM send) (between.mapM send) :=
      rel_mapM_of_perm moved
    rw [scalars.mapM_eq inside] at perm
    exact shuffled perm rfl
  | map | «member» | node | projection => exact single

/-- Two conversions with the same results, or with none, have one outcome. -/
theorem outcome_of_eq {result result' : Except FormatFault α}
    (same : result.toOption = result'.toOption) :
    Outcome Eq (result.mapError .unsuited) (result'.mapError .unsuited) := by
  rcases ok_or_error_of_toOption same with ⟨given, rfl, rfl⟩ | ⟨fault, fault', rfl, rfl⟩
  · exact .gave rfl
  · exact .unsuited

/-- A list of literals is refused for one that is. -/
theorem unsuited_mapM {convert : Value → Except BoundFault α}
    (each : ∀ value fault, convert value = .error fault → ∃ cause, fault = .unsuited cause)
    (values : List Value) (fault : BoundFault) (failed : values.mapM convert = .error fault) :
    ∃ cause, fault = .unsuited cause := by
  -- By induction on the values: the first that fails is the fault, and each fails in this way.
  induction values generalizing fault with
  | nil => cases failed
  | cons value rest ih =>
    rw [List.mapM_cons] at failed
    cases first : convert value with
    | error cause =>
      rw [first] at failed
      cases failed
      exact each value _ first
    | ok given =>
      rw [first] at failed
      cases later : rest.mapM convert with
      | error cause =>
        rw [later] at failed
        cases failed
        exact ih _ later
      | ok others =>
        rw [later] at failed
        cases failed

/-- Where an exact match refuses a literal, the literal is unsuited. -/
theorem unsuited_matchOne (key : String) (value : Value) (fault : BoundFault)
    (failed : matchOne key value = .error fault) : ∃ cause, fault = .unsuited cause := by
  -- A value that cannot be matched is unsuited.
  unfold matchOne at failed
  split at failed
  · cases failed
  · cases failed
    exact ⟨_, rfl⟩

/-- Only scalars are matched exactly. -/
theorem matchOne_scalars (key : String) :
    SendsScalars fun value => (matchOne key value).toOption := by
  -- A clause is given for a value that can be matched, and those are scalars.
  intro value given sent
  cases found : MatchValue.ofValue value with
  | error fault =>
    dsimp only [matchOne] at sent
    rw [found] at sent
    cases sent
  | ok matched => exact MatchValue.ofValue_scalars value matched (congrArg Except.toOption found)

variable {value value' : Value} (inside : Reenumerated value value')
include inside

/-- What a literal is matched with does not tell how its sets are enumerated. -/
theorem outcome_matchOne (key : String) :
    Outcome Eq (matchOne key value) (matchOne key value') := by
  -- Two values of one enumeration are matched by the same clause or by none: what can be matched is
  -- a scalar, and scalars are not reordered.
  have same := MatchValue.ofValue_scalars.eq inside
  -- The clause is built from the value to match alone.
  have shape (value : Value) : matchOne key value =
      ((MatchValue.ofValue value).mapError .unsuited >>= fun found =>
        .ok (.matching key (.value found))) := by
    unfold matchOne
    cases MatchValue.ofValue value <;> rfl
  rw [shape, shape]
  refine (outcome_of_eq same).bind ?_
  rintro found _ rfl
  exact .gave rfl

/-- Neither does an equality. -/
theorem outcome_equality (key : String) :
    Outcome Eq (equality key value) (equality key value') := by
  -- Whether the value is null does not depend on an order.
  have null : value.isNull = value'.isNull := by
    cases inside <;> rfl
  unfold equality
  rw [null]
  split
  · exact .gave rfl
  · exact outcome_matchOne inside key

/-- Neither does a range. -/
theorem outcome_rangeClause (key : String) (side : RangeSide) :
    Outcome Eq (rangeClause key side value) (rangeClause key side value') := by
  -- A bound is a scalar; only the fault of what is none may name its value.
  unfold rangeClause
  rcases Bound.ofValue_eq inside with same | ⟨fault, fault', failed, failed'⟩
  · rw [same]
    exact .refl (fun _ => rfl) _
  · rw [failed, failed']
    exact .unsuited

/-- Neither does a match of any of several values. -/
theorem outcome_matchList : Outcome Eq (matchList value) (matchList value') :=
  outcome_of_eq (MatchList.toOption_ofValue inside)

/-- Neither does a match of words. -/
theorem outcome_wordsClause (key : String) :
    Outcome Eq (wordsClause key value) (wordsClause key value') := by
  cases inside with
  | same => exact .refl (fun _ => rfl) _
  | _ => exact .unsuited

/-- Containment of every item of a set tells it in the order of clauses. -/
theorem outcome_containsEvery (key : String) {hidden : Prop}
    (kept : hidden → isSet value = false) :
    Outcome (Converted.Settled hidden) (containsEvery key value) (containsEvery key value') := by
  -- Only unsuited items fail, so that it does not matter which of them comes first.
  have related := rel_itemsOrSelf (matchOne_scalars key) inside
  rw [← toOption_mapM, ← toOption_mapM] at related
  refine (Outcome.of_toOption (unsuited_mapM (unsuited_matchOne key) _)
    (unsuited_mapM (unsuited_matchOne key) _) related).bind ?_
  rintro clauses clauses' ⟨moved, same⟩
  -- Either list has no clause, or one, or several of them.
  cases clauses with
  | nil =>
    obtain rfl := moved.nil_eq
    exact .gave .unconstrained
  | cons first rest =>
    cases rest with
    | nil =>
      obtain rfl := List.singleton_perm.mp moved
      exact .gave (.clause ⟨.same first, fun _ => rfl⟩)
    | cons second rest =>
      have length := moved.length_eq
      cases clauses' with
      | nil => cases length
      | cons first' rest' =>
        cases rest' with
        | nil => cases length
        | cons second' rest' =>
          exact .gave (.clause ⟨.filter (.of_perm moved) .nil .nil, fun safe => by
            rw [same (kept safe)]⟩)

/-- A comparison of a payload key tells an order in the clauses of a containment only. -/
theorem outcome_keyClause (key : String) (operator : Operator) {hidden : Prop}
    (kept : hidden → operator = .containsAll → isSet value = false) :
    Outcome (Converted.Settled hidden) (keyClause key operator value)
      (keyClause key operator value') := by
  -- Three kinds of operators: those that read one value, those that send a list as it stands, and
  -- those that do not look at the value. Only `containsAll` writes a clause for each item in turn.
  have equal {result result' : Except BoundFault Clause} (outcome : Outcome Eq result result')
      (make : Clause → Clause) : Outcome (Converted.Settled hidden)
        (do return .clause (make (← result))) (do return .clause (make (← result'))) := by
    refine outcome.bind ?_
    rintro clause _ rfl
    exact .gave (.clause ⟨.same _, fun _ => rfl⟩)
  have listed (make : MatchList → Match) : Outcome (Converted.Settled hidden)
      (do return .clause (.matching key (make (← matchList value))))
      (do return .clause (.matching key (make (← matchList value')))) := by
    refine (outcome_matchList inside).bind ?_
    rintro found _ rfl
    exact .gave (.clause ⟨.same _, fun _ => rfl⟩)
  have constant (clause : Clause) : Outcome (Converted.Settled hidden)
      (.ok (.clause clause)) (.ok (.clause clause)) :=
    .gave (.clause ⟨.same clause, fun _ => rfl⟩)
  cases operator with
  | equal => exact equal (outcome_equality inside key) id
  | notEqual => exact equal (outcome_equality inside key) Clause.negated
  | greater | atLeast | less | atMost => exact equal (outcome_rangeClause inside key _) id
  | oneOf | containsAny => exact listed .anyOf
  | noneOf => exact listed .noneOf
  | contains => exact equal (outcome_matchOne inside key) id
  | containsAll => exact outcome_containsEvery inside key fun safe => kept safe rfl
  | «matches» => exact equal (outcome_wordsClause inside key) id
  | defined | undefined | startsWith | endsWith | references => exact constant _

omit inside in
/-- A clause about identifiers tells their order where it is read. -/
theorem outcome_idClause {values values' : List Value} {hidden : Prop}
    (related : Option.Rel (fun ids ids' => ids.Perm ids' ∧ (hidden → ids = ids'))
      (values.mapM fun value => (PointId.ofValue value).toOption)
      (values'.mapM fun value => (PointId.ofValue value).toOption)) :
    Outcome (Settled hidden) (idClause values) (idClause values') := by
  -- All the identifiers are read or none: a failure says only that some value is no identifier, and
  -- what is read is sent in the order of the values.
  have unwrapped (read : Except FormatFault (List PointId)) :
      (read.mapError BoundFault.unsuited).toOption = read.toOption := by
    cases read <;> rfl
  have unsuited (read : Except FormatFault (List PointId)) (fault : BoundFault)
      (failed : read.mapError BoundFault.unsuited = .error fault) :
      ∃ cause, fault = .unsuited cause := by
    cases read with
    | error cause =>
      cases failed
      exact ⟨cause, rfl⟩
    | ok ids => cases failed
  rw [← toOption_mapM, ← toOption_mapM, ← unwrapped, ← unwrapped] at related
  refine (Outcome.of_toOption (unsuited _) (unsuited _) related).bind ?_
  rintro ids ids' ⟨moved, same⟩
  exact .gave ⟨.hasId moved, fun safe => by rw [same safe]⟩

/-- A comparison of the identifier of a point tells the order of a set of identifiers only. -/
theorem rel_idComparison (operator : Operator) {hidden : Prop}
    (kept : hidden → operator = .oneOf ∨ operator = .noneOf → isSet value = false) :
    Option.Rel (Outcome (Settled hidden)) (idComparison? operator value)
      (idComparison? operator value') := by
  -- Only the two operators over a list read the value in order; the others read it as one
  -- identifier, which is a scalar.
  have single : Outcome (Settled hidden) (idClause [value]) (idClause [value']) := by
    refine outcome_idClause ?_
    rw [PointId.ofValue_scalars.mapM_eq (.cons inside .nil)]
    exact rel_refl (fun _ => ⟨.refl _, fun _ => rfl⟩) _
  have several (listed : operator = .oneOf ∨ operator = .noneOf) :
      Outcome (Settled hidden) (idClause (itemsOrSelf value)) (idClause (itemsOrSelf value')) := by
    refine outcome_idClause ?_
    have related := rel_itemsOrSelf PointId.ofValue_scalars inside
    revert related
    generalize (itemsOrSelf value).mapM (fun value => (PointId.ofValue value).toOption) = ids
    generalize (itemsOrSelf value').mapM (fun value => (PointId.ofValue value).toOption) = ids'
    intro related
    cases related with
    | none => exact .none
    | some related => exact .some ⟨related.1, fun safe => related.2 (kept safe listed)⟩
  have negated {result result' : Except BoundFault Clause}
      (outcome : Outcome (Settled hidden) result result') :
      Outcome (Settled hidden) (result.map Clause.negated) (result'.map Clause.negated) := by
    cases outcome with
    | gave settled =>
      exact .gave ⟨.filter .nil .nil (.cons settled.1 .nil), fun safe => by rw [settled.2 safe]⟩
    | unsuited => exact .unsuited
    | overflow => exact .overflow
  cases operator with
  | equal => exact .some single
  | notEqual => exact .some (negated single)
  | oneOf => exact .some (several (Or.inl rfl))
  | noneOf => exact .some (negated (several (Or.inr rfl)))
  | _ => exact .none

omit inside in
/-- A leaf is converted to what its literal is, or dropped, or refused. -/
theorem echo_orNotice (field : Value) (operator : Operator) {hidden : Prop}
    {result result' : Except BoundFault Converted}
    (outcome : Outcome (Converted.Settled hidden) result result') :
    EchoWritten (Converted.Settled hidden) (orNotice field operator result)
      (orNotice field operator result') := by
  -- Values that are unsuited may be so for different faults, which are noted alike unless one
  -- cannot be written.
  cases outcome with
  | gave settled => exact .pure settled
  | unsuited => exact .bind .dropInvalidValues fun _ _ _ => .pure .dropped
  | overflow => exact .refuse

/-- A comparison tells the order of sets where it reads it only. -/
theorem echo_convertComparison (payloadPrefix : Value) (path : String) (operator : Operator)
    {hidden : Prop} (kept : hidden → readsOrder (.text path) (.known operator) value = false) :
    EchoWritten (Converted.Settled hidden) (convertComparison payloadPrefix path operator value)
      (convertComparison payloadPrefix path operator value') := by
  -- The identifier has its own operators, and every other field is a key of the payload.
  unfold convertComparison
  split
  · rename_i identifier
    -- Of an identifier the two operators over a list are those that read in order.
    have among : hidden → operator = .oneOf ∨ operator = .noneOf → isSet value = false := by
      intro safe listed
      have unread := kept safe
      rcases listed with rfl | rfl <;> simpa [readsOrder, identifier] using unread
    have related := rel_idComparison inside operator among
    revert related
    generalize idComparison? operator value = result
    generalize idComparison? operator value' = result'
    intro related
    cases related with
    | none => exact .noted (.pure .dropped)
    | some outcome =>
      refine echo_orNotice _ _ ?_
      cases outcome with
      | gave settled => exact .gave (.clause settled)
      | unsuited => exact .unsuited
      | overflow => exact .overflow
  · rename_i other
    refine echo_orNotice _ _ (outcome_keyClause inside _ operator fun safe every => ?_)
    have unread := kept safe
    subst every
    simpa [readsOrder, other] using unread

/-- A leaf tells the order of sets where it reads it only. -/
theorem echo_convertLeaf (payloadPrefix field : Value) (comparison : Comparison) {hidden : Prop}
    (kept : hidden → readsOrder field comparison value = false) :
    EchoWritten (Converted.Settled hidden) (convertLeaf payloadPrefix field comparison value)
      (convertLeaf payloadPrefix field comparison value') := by
  -- Up to the value everything is the same: the field, its path and the operator decide together
  -- whether there is a comparison at all.
  have dropped {reason : Reason} {message : String} {field operator : Value} :
      EchoWritten (Converted.Settled hidden)
        (do Compile.degrade reason message field operator; return Converted.dropped)
        (do Compile.degrade reason message field operator; return Converted.dropped) :=
    .noted (.pure .dropped)
  unfold convertLeaf
  split
  · split
    · split
      · split
        · exact echo_convertComparison inside payloadPrefix _ _ kept
        · exact dropped
      · exact dropped
      · exact .refuse
    · exact dropped
  · exact dropped

end Leaf

section Join

variable {hidden : Prop}

/-- Clauses that are settled one by one are so as a list. -/
theorem allSettled_of_each {clauses clauses' : List Clause}
    (each : List.Forall₂ (Settled hidden) clauses clauses') :
    AllSettled hidden clauses clauses' := by
  induction each with
  | nil => exact ⟨.nil, fun _ => rfl⟩
  | cons first _ ih => exact ⟨.cons first.1 ih.1, fun safe => by rw [first.2 safe, ih.2 safe]⟩

variable {results results' : List Converted}

/-- The clauses of results that are settled are settled one by one. -/
theorem each_clause (each : List.Forall₂ (Converted.Settled hidden) results results') :
    List.Forall₂ (Settled hidden) (results.filterMap Converted.clause?)
      (results'.filterMap Converted.clause?) := by
  -- By induction on the results; what is dropped is dropped on both sides.
  induction each with
  | nil => exact .nil
  | cons first _ ih =>
    cases first with
    | dropped | unconstrained => exact ih
    | clause settled => exact .cons settled ih

/-- Results that are settled leave a disjunction free alike. -/
theorem any_isUnconstrained_eq
    (each : List.Forall₂ (Converted.Settled hidden) results results') :
    results.any Converted.isUnconstrained = results'.any Converted.isUnconstrained := by
  -- By induction on the results: being unconstrained says nothing of an order.
  induction each with
  | nil => rfl
  | cons first _ ih =>
    rw [List.any_cons, List.any_cons, ih]
    cases first <;> rfl

/-- Results that are settled are joined to one that is. -/
theorem joined_settled {join : List Clause → Clause}
    (joins : ∀ clauses clauses', AllSettled hidden clauses clauses' →
      Settled hidden (join clauses) (join clauses'))
    (each : List.Forall₂ (Converted.Settled hidden) results results') :
    Converted.Settled hidden (joined join results) (joined join results') := by
  have clauses := each_clause each
  have free := any_isUnconstrained_eq each
  have empty : results.isEmpty = results'.isEmpty := by
    cases each <;> rfl
  -- As many clauses are left on both sides, so that both join none, one or several.
  unfold joined
  rw [free, empty]
  revert clauses
  generalize results.filterMap Converted.clause? = found
  generalize results'.filterMap Converted.clause? = found'
  intro clauses
  cases clauses with
  | nil =>
    dsimp only
    split
    · exact .unconstrained
    · exact .dropped
  | cons first others =>
    cases others with
    | nil => exact .clause first
    | cons second rest =>
      exact .clause (joins _ _ (allSettled_of_each (.cons first (.cons second rest))))

/-- Conjunctions of results that are settled are settled. -/
theorem conjunction_settled (each : List.Forall₂ (Converted.Settled hidden) results results') :
    Converted.Settled hidden (conjunction results) (conjunction results') :=
  joined_settled (fun _ _ both =>
    ⟨.filter both.1 .nil .nil, fun safe => by rw [both.2 safe]⟩) each

/-- Disjunctions of results that are settled are settled. -/
theorem disjunction_settled (each : List.Forall₂ (Converted.Settled hidden) results results') :
    Converted.Settled hidden (disjunction results) (disjunction results') := by
  -- One unconstrained alternative frees both sides; otherwise the alternatives are joined as they
  -- are.
  unfold disjunction
  rw [any_isUnconstrained_eq each]
  split
  · exact .unconstrained
  · exact joined_settled (fun _ _ both =>
      ⟨.filter .nil both.1 .nil, fun safe => by rw [both.2 safe]⟩) each

/-- Negations of results that are settled are settled. -/
theorem echo_negation {result result' : Converted}
    (settled : Converted.Settled hidden result result') :
    EchoWritten (Converted.Settled hidden) (negation result) (negation result') := by
  -- A clause is negated as it is, and nothing is left of anything else.
  cases settled with
  | clause settled =>
    exact .pure (.clause ⟨.filter .nil .nil (.cons settled.1 .nil), fun safe => by
      rw [settled.2 safe]⟩)
  | dropped => exact .pure .dropped
  | unconstrained => exact .noted (.pure .dropped)

end Join

mutual

/-- Whether a leaf of a condition reads the items of a set in their order. -/
def asksInOrder : Condition → Bool
  | .leaf field comparison value => readsOrder field comparison value
  | .all conditions => anyAsksInOrder conditions
  | .any conditions => anyAsksInOrder conditions
  | .not condition => asksInOrder condition
termination_by structural input => input

/-- Whether a leaf of any of several conditions does. -/
def anyAsksInOrder : List Condition → Bool
  | [] => false
  | condition :: rest => asksInOrder condition || anyAsksInOrder rest
termination_by structural input => input

end

mutual

/-- A condition is converted to a settled result in two enumerations of its sets. -/
theorem echo_convert (payloadPrefix : Value) {hidden : Prop} :
    {condition condition' : Condition} → Condition.Alike enumerations condition condition' →
      (hidden → asksInOrder condition = false) →
        EchoWritten (Converted.Settled hidden) (convert payloadPrefix condition)
          (convert payloadPrefix condition')
  -- By induction on the two conditions. Only the leaves hold literals, and the connectives put
  -- together what is given for the members.
  | _, _, .leaf literals, kept => echo_convertLeaf literals payloadPrefix _ _ kept
  | _, _, .all inside, kept =>
    .bind (echo_convertAll payloadPrefix inside kept) fun _ _ each =>
      .pure (conjunction_settled each)
  | .any conditions, .any conditions', .any inside, kept => by
    have echo := echo_convertAll payloadPrefix inside kept
    have empty : conditions.isEmpty = conditions'.isEmpty := by
      cases inside <;> rfl
    unfold convert
    rw [empty]
    split
    · exact .noted (.pure .dropped)
    · exact .bind echo fun _ _ each => .pure (disjunction_settled each)
  | _, _, .not inside, kept =>
    .bind (echo_convert payloadPrefix inside kept) fun _ _ settled => echo_negation settled
termination_by structural _ _ alike => alike

/-- Conditions in a row are converted to settled results. -/
theorem echo_convertAll (payloadPrefix : Value) {hidden : Prop} :
    {conditions conditions' : List Condition} →
      Condition.AllAlike enumerations conditions conditions' →
        (hidden → anyAsksInOrder conditions = false) →
          EchoWritten (List.Forall₂ (Converted.Settled hidden)) (convertAll payloadPrefix conditions)
            (convertAll payloadPrefix conditions')
  -- By induction on the conditions, in the order in which they are converted.
  | _, _, .nil, _ => .pure .nil
  | _, _, .cons first others, kept =>
    have here := fun safe => (Bool.or_eq_false_iff.mp (kept safe)).1
    have later := fun safe => (Bool.or_eq_false_iff.mp (kept safe)).2
    .bind (echo_convert payloadPrefix first here) fun _ _ settled =>
      .bind (echo_convertAll payloadPrefix others later) fun _ _ each => .pure (.cons settled each)
termination_by structural _ _ alike => alike

end

section Filter

variable {hidden : Prop}

/-- A clause that only asks for others is replaced by them, and every other clause stays. -/
theorem conjuncts_filter (must should mustNot : List Clause) :
    conjuncts (.clause (.filter must should mustNot)) =
      if must ≠ [] ∧ should = [] ∧ mustNot = [] then must
      else [.filter must should mustNot] := by
  cases must <;> cases should <;> cases mustNot <;> rfl

/-- What a settled result adds to a whole filter is settled. -/
theorem conjuncts_settled {result result' : Converted}
    (settled : Converted.Settled hidden result result') :
    AllSettled hidden (conjuncts result) (conjuncts result') := by
  cases settled with
  | dropped | unconstrained => exact ⟨.nil, fun _ => rfl⟩
  | clause settled =>
    obtain ⟨rearranged, same⟩ := settled
    refine ⟨?_, fun safe => by rw [same safe]⟩
    -- A clause that only asks for others is one in every arrangement.
    have whole := Clause.AllRearranged.cons rearranged .nil
    cases rearranged with
    | same => exact .refl _
    | hasId moved => exact whole
    | filter required alternatives excluded =>
      have empty {clauses clauses' : List Clause} (moved : Clause.AllRearranged clauses clauses') :
          clauses = [] ↔ clauses' = [] := by
        rw [← List.length_eq_zero_iff, ← List.length_eq_zero_iff, moved.length_eq]
      rw [conjuncts_filter, conjuncts_filter]
      simp only [ne_eq, empty required, empty alternatives, empty excluded]
      split
      · exact required
      · exact whole

/-- What settled results add to a whole filter is settled. -/
theorem flatMap_conjuncts_settled {results results' : List Converted}
    (each : List.Forall₂ (Converted.Settled hidden) results results') :
    AllSettled hidden (results.flatMap conjuncts) (results'.flatMap conjuncts) := by
  -- By induction on the results: a conjunction is spread into its parts on both sides.
  induction each with
  | nil => exact ⟨.nil, fun _ => rfl⟩
  | cons first _ ih =>
    have here := conjuncts_settled first
    rw [List.flatMap_cons, List.flatMap_cons]
    exact ⟨here.1.append ih.1, fun safe => by rw [here.2 safe, ih.2 safe]⟩

/-- Two filters that are settled, or none in both places. -/
def FilterSettled (hidden : Prop) : Option Clause → Option Clause → Prop :=
  Option.Rel (Settled hidden)

/-- What stands behind conditions is the same in both places, whatever order it reads. -/
theorem echo_beforeOthers (payloadPrefix : Value) {own own' : List Condition}
    (alike : Condition.AllAlike enumerations own own')
    (kept : hidden → anyAsksInOrder own = false) (others : List Condition) :
    EchoWritten (List.Forall₂ (Converted.Settled hidden)) (convertAll payloadPrefix (own ++ others))
      (convertAll payloadPrefix (own' ++ others)) := by
  -- The conditions that follow are the same on both sides, and so is what they are converted to.
  have unchanged (results : List Converted) :
      List.Forall₂ (Converted.Settled hidden) results results :=
    List.forall₂_same.mpr fun result _ => by
      cases result with
      | dropped => exact .dropped
      | unconstrained => exact .unconstrained
      | clause clause => exact .clause ⟨.same clause, fun _ => rfl⟩
  rw [convertAll_append, convertAll_append]
  refine .bind (echo_convertAll payloadPrefix alike kept) fun results results' each => ?_
  refine .bind (.of_ensures (ensures_convertAll payloadPrefix others)) ?_
  rintro behind _ rfl
  exact .pure (List.rel_append each (unchanged behind))

/-- The filters of conditions that are alike are settled. -/
theorem echo_filterOf (configuration : Configuration) (query : Query) {own own' : List Condition}
    (alike : Condition.AllAlike enumerations own own')
    (kept : hidden → anyAsksInOrder own = false) :
    EchoWritten (FilterSettled hidden) (filterOf configuration query own)
      (filterOf configuration query own') := by
  -- Only the query's own conditions may be enumerated otherwise; the type and the drafts are not.
  unfold filterOf
  refine .bind (.of_ensures (ensures_draftClause configuration query)) ?_
  rintro excluded _ rfl
  refine .bind (echo_beforeOthers _ alike kept _) fun converted converted' each => .pure ?_
  have settled := flatMap_conjuncts_settled each
  have required : AllSettled hidden (typeClause query ++ converted.flatMap conjuncts)
      (typeClause query ++ converted'.flatMap conjuncts) :=
    ⟨(Clause.AllRearranged.refl _).append settled.1, fun safe => by rw [settled.2 safe]⟩
  unfold FilterSettled
  rw [isEmpty_eq_of_length required.1.length_eq]
  split
  · exact .none
  · exact .some ⟨.filter required.1 .nil (.refl excluded), fun safe => by rw [required.2 safe]⟩

end Filter

/--
Queries whose conditions are alike are compiled to scrolls whose filters are settled, unless one of
them is refused for an integer that is too long.
-/
theorem agree_compile (configuration : Configuration) (query query' : Query)
    {own own' : List Condition} {hidden : Prop}
    (beside : query' = { query with filter := query'.filter })
    (alike : Condition.AllAlike enumerations own own')
    (kept : hidden → anyAsksInOrder own = false) :
    AgreeUnless (· = .unwritable)
      (fun compiled compiled' => FilterSettled hidden compiled.query compiled'.query ∧
        compiled.parameters = compiled'.parameters ∧
          compiled.notices.map Notice.reason = compiled'.notices.map Notice.reason)
      (compile configuration query own) (compile configuration query' own') := by
  -- The log of either scroll may refuse it, which excuses the other.
  refine (Compiled.agree_run .qdrant configuration.settings ?_).bind fun _ _ settled =>
    .tested rfl settled
  rw [convertQuery_eq, convertQuery_eq]
  have filters : filterOf configuration query' own' = filterOf configuration query own' := by
    rw [beside]
    rfl
  have options : optionsOf configuration query' = optionsOf configuration query := by
    rw [beside]
    rfl
  have params : query'.params = query.params := by
    rw [beside]
  rw [filters]
  refine .bind (echo_filterOf configuration query alike kept) fun filter filter' settled => ?_
  unfold finish
  rw [options, params]
  refine .bind (.refl (steady_optionsOf configuration query)) ?_
  rintro own _ rfl
  refine .bind (.refl (steady_passThrough _ _ _ _ _)) ?_
  rintro parameters _ rfl
  exact .pure ⟨settled, rfl⟩

end ContentQuery.Qdrant
