import ContentQuery.Format.Bound
import ContentQuery.Format.Match
import ContentQuery.Format.Parameter
import ContentQuery.Format.Point
import ContentQuery.Proofs.JsonNormalForm

/-! Members of enumerations in the places of their values, in each form that a literal can take. -/

namespace ContentQuery

namespace Value

/-- Whether a value is a member of an enumeration, and of no other type. -/
def isMember : Value → Bool
  | .member _ | .operator _ => true
  | _ => false

/-- Whether a value is null, a truth value, a number, a text, an identifier or a time. -/
def isPlain : Value → Bool
  | .null | .bool _ | .int _ | .float _ | .text _ | .uuid _ | .date _ | .time _ | .moment _ => true
  | _ => false

/-- Whether an enumeration can mix in the type of a value, so that its members are of that type. -/
def canMixIn : Value → Bool
  | .int _ | .float _ | .text _ | .date _ | .time _ | .moment _ => true
  | _ => false

/--
The members of enumerations with a given value. In a plain enumeration they are of no other type.
In one that mixes in a type they are of that type as well: whoever asks for the type of such a
member, takes it for its value.
-/
inductive Enumerates : Value → Value → Prop where
  | apart (value : Value) : Enumerates value (.member value)
  | operator (operator : Operator) : Enumerates (.text operator.symbol) (.operator operator)
  | mixed {value : Value} (mixes : value.canMixIn = true) : Enumerates value value

variable {value member : Value}

/-- The form of a plain value does not depend on whether it was taken out of an enumeration. -/
theorem jsonForm_of_isPlain (plain : value.isPlain = true) (depth : Nat) (opened opened' : Bool) :
    jsonForm depth opened value = jsonForm depth opened' value := by
  -- Only another member of an enumeration is looked at again, and none is plain.
  cases value with
  | null | bool | int | float | text | uuid | date | time | moment => rfl
  | _ => exact nomatch plain

/-- The scalar of a plain value is the text that it is written as, or the value. -/
theorem scalar_of_isPlain (plain : value.isPlain = true) : value.scalar = value.stringified := by
  cases value with
  | null | bool | int | float | text | uuid | date | time | moment => rfl
  | _ => exact nomatch plain

namespace Enumerates

/-- A member has the JSON form of its value. -/
theorem jsonForm_eq (enumerates : Enumerates value member) (plain : value.isPlain = true)
    (depth : Nat) : jsonForm depth false member = jsonForm depth false value := by
  cases enumerates with
  | apart => exact jsonForm_of_isPlain plain depth true false
  | operator | mixed => rfl

/-- A member stands for the scalar that its value stands for. -/
theorem scalar_eq (enumerates : Enumerates value member) (plain : value.isPlain = true) :
    member.scalar = value.scalar := by
  cases enumerates with
  | apart => exact (scalar_of_isPlain plain).symm
  | operator | mixed => rfl

/-- A member is no container where its value is none. -/
theorem isContainer_eq (enumerates : Enumerates value member) (plain : value.isPlain = true) :
    Parameter.isContainer member = false := by
  cases enumerates with
  | apart | operator => rfl
  | mixed mixes =>
    -- What can be mixed in is no container.
    cases value <;> first | rfl | exact nomatch mixes

/-- A member is a value of its own kind, or it is taken for its value. -/
theorem isMember_or_eq (enumerates : Enumerates value member) :
    member.isMember = true ∨ member.isMember = false ∧ member = value := by
  -- A member that is its own value is a text or an integer, and stays what it is.
  cases enumerates with
  | apart | operator => exact .inl rfl
  | mixed mixes =>
    refine .inr ⟨?_, rfl⟩
    cases value <;> first | rfl | exact nomatch mixes

end Enumerates

/-- A plain value is no container. -/
theorem isContainer_of_isPlain (plain : value.isPlain = true) :
    Parameter.isContainer value = false := by
  cases value with
  | list | tuple | set | map => exact nomatch plain
  | _ => rfl

/-- What is no container is sorted by no one. -/
theorem checkSortable_of_single (single : Parameter.isContainer value = false) :
    value.checkSortable = .ok () := by
  cases value with
  | set => exact nomatch single
  | _ => rfl

/-- What is no container holds no items. -/
theorem orderedItems?_of_single (single : Parameter.isContainer value = false) :
    value.orderedItems? = none := by
  cases value with
  | list | tuple | set => exact nomatch single
  | _ => rfl

end Value

/-- Whatever refuses a literal in a result refuses it for its form. -/
def ForItsForm {α : Type} (result : Except FormatFault α) : Prop :=
  ∀ fault, result = .error fault → fault.isUnwritable = false

section Forms

variable {value value' : Value}

/-- A plain value that has no JSON form has none for its form. -/
theorem Value.forItsForm_toJson (plain : value.isPlain = true) : ForItsForm value.toJson := by
  intro fault refused
  cases value with
  | null | bool | int | text | uuid | date | time | moment => exact nomatch refused
  | float number =>
    -- A number that is not finite is the one plain value without a JSON form.
    unfold toJson jsonForm at refused
    split at refused
    · exact nomatch refused
    · cases refused
      rfl
  | _ => exact nomatch plain

/-- A value that is no container is sent as a scalar. -/
theorem Parameter.ofValue_of_single (single : isContainer value = false) :
    ofValue value = ofScalar value := by
  unfold ofValue
  rw [Value.checkSortable_of_single single, Value.orderedItems?_of_single single]
  -- Among what has no items, only a map is not tried as a scalar.
  cases value with
  | map => exact nomatch single
  | _ => rfl

/-- Values that stand for one scalar are sent as one parameter. -/
theorem Parameter.ofScalar_congr (same : value.scalar = value'.scalar) :
    ofScalar value = ofScalar value' := by
  unfold ofScalar
  rw [same]

/-- What cannot be sent as a scalar cannot be sent for its form. -/
theorem Parameter.forItsForm_ofScalar (value : Value) : ForItsForm (ofScalar value) := by
  -- A scalar is refused for its form wherever it is refused at all.
  intro fault refused
  unfold ofScalar at refused
  split at refused
  case h_3 =>
    split at refused
    · exact nomatch refused
    · cases refused
      rfl
  case h_5 | h_6 =>
    cases refused
    rfl
  all_goals exact nomatch refused

/-- Values that stand for one scalar are matched alike. -/
theorem MatchValue.ofValue_congr (same : value.scalar = value'.scalar) :
    ofValue value = ofValue value' := by
  unfold ofValue
  rw [same]

/-- What cannot be matched cannot be matched for its form. -/
theorem MatchValue.forItsForm_ofValue (value : Value) : ForItsForm (ofValue value) := by
  -- Only what is neither a flag nor an integer nor a text is refused, and for its form.
  intro fault refused
  unfold ofValue at refused
  split at refused
  case h_4 =>
    cases refused
    rfl
  all_goals exact nomatch refused

/-- Values that are no containers and stand for one scalar are matched alike in lists. -/
theorem MatchList.ofValue_congr (single : Parameter.isContainer value = false)
    (single' : Parameter.isContainer value' = false) (same : value.scalar = value'.scalar) :
    ofValue value = ofValue value' := by
  -- A value that holds no others is its own only item.
  unfold ofValue
  rw [Value.checkSortable_of_single single, Value.checkSortable_of_single single',
    Value.orderedItems?_of_single single, Value.orderedItems?_of_single single', Option.getD_none,
    Option.getD_none, List.map_singleton, List.map_singleton, same]

/-- What is no container and cannot be matched in lists cannot be so for its form. -/
theorem MatchList.forItsForm_ofValue (single : Parameter.isContainer value = false) :
    ForItsForm (ofValue value) := by
  intro fault refused
  unfold ofValue at refused
  rw [Value.checkSortable_of_single single] at refused
  -- Nothing is sorted, so that a list fails for being empty or mixed.
  obtain refused | ⟨-, -, refused⟩ := error_of_bind refused
  · exact nomatch refused
  · dsimp only at refused
    split at refused
    · cases refused
      rfl
    · split at refused
      · exact nomatch refused
      · split at refused
        · exact nomatch refused
        · cases refused
          rfl

/-- A member of an enumeration, and of no other type, never ends a range. -/
theorem Bound.ofValue_of_isMember (enumerated : value.isMember = true) :
    ofValue value = .error (.unsuited (.notBound value.typeName)) := by
  cases value with
  | member | operator => rfl
  | _ => exact nomatch enumerated

/-- A member of an enumeration, and of no other type, never identifies a point. -/
theorem PointId.ofValue_of_isMember (enumerated : value.isMember = true) :
    ofValue value = .error (.notPoint value.typeName) := by
  cases value with
  | member | operator => rfl
  | _ => exact nomatch enumerated

end Forms

/-- Two results are the same one, or both are refusals of a literal for its form. -/
def SameOrRefused {ε α : Type} (refuses : ε → Prop) (result result' : Except ε α) : Prop :=
  (∃ given, result = .ok given ∧ result' = .ok given) ∨
    (∃ fault, result = .error fault ∧ refuses fault) ∧
      ∃ fault, result' = .error fault ∧ refuses fault

/-- A fault that is a reason why a literal has no form; that a number overflows is none. -/
def BoundFault.Refuses (fault : BoundFault) : Prop :=
  ∃ reason, fault = .unsuited reason ∧ reason.isUnwritable = false

/-- A fault of the form of a literal; that an integer cannot be written is none. -/
def FormatFault.Refuses (fault : FormatFault) : Prop :=
  fault.isUnwritable = false

section Law

variable {ε α : Type} {refuses : ε → Prop} {result result' : Except ε α}

/-- One result agrees with itself where it is given, or refused for the form. -/
theorem sameOrRefused_self : SameOrRefused refuses result result ↔
    (∃ given, result = .ok given) ∨ ∃ fault, result = .error fault ∧ refuses fault := by
  unfold SameOrRefused
  rw [and_self]
  exact or_congr_left (exists_congr fun _ => and_self_iff)

/-- What is refused for its form agrees with what is refused so too, and with nothing else. -/
theorem sameOrRefused_iff (refused : ∃ fault, result = .error fault ∧ refuses fault) :
    SameOrRefused refuses result result' ↔ ∃ fault, result' = .error fault ∧ refuses fault := by
  -- With one side refused the first half of the alternative is out of the question.
  constructor
  · rintro (⟨given, same, -⟩ | ⟨-, other⟩)
    · obtain ⟨fault, failed, -⟩ := refused
      exact nomatch same.symm.trans failed
    · exact other
  · exact fun other => .inr ⟨refused, other⟩

end Law

/--
A member of an enumeration stands for its value in JSON, in parameters and in matches, where a value
is refused for its form only. Where ranges end and points are identified, a member that is of the
type of its value as well stands for it, unless the value fails in another way. A member of no other
type is always refused there, and so it stands for those values only that are refused too.
-/
theorem members_stand_for_values {value member : Value}
    (enumerates : Value.Enumerates value member) (plain : value.isPlain = true) :
    (member.toJson = value.toJson ∧ ForItsForm value.toJson) ∧
      (Parameter.ofValue member = Parameter.ofValue value ∧ ForItsForm (Parameter.ofValue value)) ∧
      (MatchValue.ofValue member = MatchValue.ofValue value ∧
        ForItsForm (MatchValue.ofValue value)) ∧
      (MatchList.ofValue member = MatchList.ofValue value ∧ ForItsForm (MatchList.ofValue value)) ∧
      (SameOrRefused BoundFault.Refuses (Bound.ofValue member) (Bound.ofValue value) ↔
        (member.isMember = false ∧ ∃ bound, Bound.ofValue value = .ok bound) ∨
          ∃ fault, Bound.ofValue value = .error fault ∧ fault.Refuses) ∧
      (SameOrRefused FormatFault.Refuses (PointId.ofValue member) (PointId.ofValue value) ↔
        (member.isMember = false ∧ ∃ id, PointId.ofValue value = .ok id) ∨
          ∃ fault, PointId.ofValue value = .error fault ∧ fault.Refuses) ∧
      (member.isMember = true →
        Bound.ofValue member = .error (.unsuited (.notBound member.typeName)) ∧
          PointId.ofValue member = .error (.notPoint member.typeName)) := by
  have same := enumerates.scalar_eq plain
  have single := enumerates.isContainer_eq plain
  have single' := Value.isContainer_of_isPlain plain
  have sent : Parameter.ofValue member = Parameter.ofValue value := by
    rw [Parameter.ofValue_of_single single, Parameter.ofValue_of_single single',
      Parameter.ofScalar_congr same]
  refine ⟨⟨enumerates.jsonForm_eq plain 0, Value.forItsForm_toJson plain⟩, ⟨sent, ?_⟩,
    ⟨MatchValue.ofValue_congr same, MatchValue.forItsForm_ofValue value⟩,
    ⟨MatchList.ofValue_congr single single' same, MatchList.forItsForm_ofValue single'⟩, ?_, ?_,
    fun enumerated => ⟨Bound.ofValue_of_isMember enumerated,
      PointId.ofValue_of_isMember enumerated⟩⟩
  · rw [Parameter.ofValue_of_single single']
    exact Parameter.forItsForm_ofScalar value
  -- What is only a member is refused; any other member is taken for its value.
  · rcases enumerates.isMember_or_eq with apart | ⟨mixed, rfl⟩
    · rw [sameOrRefused_iff ⟨_, Bound.ofValue_of_isMember apart, _, rfl, rfl⟩, apart]
      simp
    · rw [sameOrRefused_self, mixed]
      simp
  · rcases enumerates.isMember_or_eq with apart | ⟨mixed, rfl⟩
    · have refused : ∃ fault, PointId.ofValue member = .error fault ∧ fault.Refuses :=
        ⟨_, PointId.ofValue_of_isMember apart, rfl⟩
      rw [sameOrRefused_iff refused, apart]
      simp
    · rw [sameOrRefused_self, mixed]
      simp

/-- A member with a comma in its text stands for the text, and one that is a number for the number. -/
theorem members_stand_for_values_comma :
    Parameter.ofValue (.member (.text "a,b")) = Parameter.ofValue (.text "a,b") ∧
      SameOrRefused FormatFault.Refuses (PointId.ofValue (.member (.text "a,b")))
        (PointId.ofValue (.text "a,b")) ∧
      SameOrRefused FormatFault.Refuses (PointId.ofValue (.int 5)) (PointId.ofValue (.int 5)) := by
  -- The first member is apart from its text, and the second is its own number.
  have stands := members_stand_for_values (.apart (.text "a,b")) rfl
  have number := members_stand_for_values (@Value.Enumerates.mixed (.int 5) rfl) rfl
  exact ⟨stands.2.1.1, stands.2.2.2.2.2.1.mpr (.inr ⟨_, rfl, rfl⟩),
    number.2.2.2.2.2.1.mpr (.inl ⟨rfl, _, rfl⟩)⟩

/-- A number ends a range and identifies a point, and a member that is no number does neither. -/
theorem member_of_number_refused :
    (∃ bound, Bound.ofValue (.int 5) = .ok bound) ∧
      Bound.ofValue (.member (.int 5)) = .error (.unsuited (.notBound "E")) ∧
      PointId.ofValue (.int 5) = .ok (.number 5) ∧
      PointId.ofValue (.member (.int 5)) = .error (.notPoint "E") :=
  ⟨⟨_, rfl⟩, rfl, rfl, rfl⟩

end ContentQuery
