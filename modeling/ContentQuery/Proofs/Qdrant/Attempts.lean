import ContentQuery.Proofs.Attempts
import ContentQuery.Proofs.Qdrant.Preservation

/-! Every leaf of a filter is tried: it becomes a clause, is dropped with a notice, or refuses. -/

namespace ContentQuery.Qdrant

open Compile (Decides)
open Condition (leaves leavesAll)

/-- The operators that compare with a range. -/
def isRange : Operator → Bool
  | .greater | .atLeast | .less | .atMost => true
  | _ => false

/-- Whether a literal is an integer that no range can hold. -/
def outOfRange : Value → Bool
  | .int number => (Binary64.ofInt? number).isNone
  | _ => false

/-- The operators that match with a list, whose items are put in an order. -/
def isMembership : Operator → Bool
  | .oneOf | .containsAny | .noneOf => true
  | _ => false

/-- The refusal that a clause which cannot be made leads to, unless its literal is dropped. -/
def refusalOfClause {α : Type} : Except BoundFault α → Option Fault
  | .error .overflow => some .overflow
  | .error (.unsuited fault) => refusalOf (.error fault : Except FormatFault α)
  | .ok _ => none

/--
The refusal that an attempt leads to.

A field that is neither a text nor null is mistyped, and a range on a payload key overflows; a set
is not put in an order, and a negative identifier not shown, where an integer in it is too long.
-/
def refusal? : Attempt → Option Fault
  | .leaf field (.known operator) value =>
    if supports operator then
      match field with
      | .null => none
      | .text path =>
        if !pathGrammar.isPath path then none
        -- The identifier of a point is in no range, and compared by itself.
        else if path = "_id" then (idComparison? operator value).bind refusalOfClause
        else if isRange operator && outOfRange value then some .overflow
        else if isMembership operator then refusalOf value.checkSortable
        else none
      | _ => some .mistyped
    else none
  | _ => none

/-- Whether there is a clause for a path, an operator and a literal. -/
def hasClause (payloadPrefix : Value) (path : String) (operator : Operator) (value : Value) :
    Bool :=
  if path = "_id" then (idComparison? operator value).any (·.toOption.isSome)
  else (keyClause (fieldKey payloadPrefix path) operator value).toOption.isSome

/-- Whether an attempt is carried over. -/
def carries (payloadPrefix : Value) : Attempt → Bool
  | .leaf (.text path) (.known operator) value =>
    supports operator && pathGrammar.isPath path && hasClause payloadPrefix path operator value
  | _ => false

/-- Whether an attempt is carried over to a clause that the log may fail to write. -/
def overlong (payloadPrefix : Value) (attempt : Attempt) : Bool :=
  carries payloadPrefix attempt && attempt.isOverlong

section Refusals

variable {α β : Type}

/-- What is made of a result is refused where the result is. -/
theorem refusalOfClause_map (first : Except BoundFault α) (make : α → β) :
    refusalOfClause (do return make (← first)) = refusalOfClause first := by
  rcases first with (fault | _) | given <;> rfl

/-- Two steps are not refused when neither is. -/
theorem refusalOfClause_bind {first : Except BoundFault α} {next : α → Except BoundFault β}
    (none_ : refusalOfClause first = none) (then_ : ∀ given, refusalOfClause (next given) = none) :
    refusalOfClause (first >>= next) = none := by
  -- A fault of the other kind is no refusal, wherever it comes from.
  rcases first with (fault | _) | given
  · exact none_
  · exact nomatch none_
  · exact then_ given

/-- A match with a value is not refused: no other value is shown. -/
theorem refusalOfClause_matchOne (key : String) (value : Value) :
    refusalOfClause (matchOne key value) = none := by
  unfold matchOne MatchValue.ofValue
  cases value.scalar <;> rfl

/-- An equality is not refused. -/
theorem refusalOfClause_equality (key : String) (value : Value) :
    refusalOfClause (equality key value) = none := by
  unfold equality
  split
  · rfl
  · exact refusalOfClause_matchOne key value

/-- A match with a list is refused for a set that cannot be put in an order. -/
theorem refusalOfClause_matchList (value : Value) :
    refusalOfClause (matchList value) = refusalOf value.checkSortable := by
  unfold matchList MatchList.ofValue
  cases value.checkSortable with
  | error fault => rfl
  | ok _ =>
    -- The other faults are about the kinds of the items, which are not shown.
    dsimp only [bind, Except.bind]
    split
    · rfl
    · split
      · rfl
      · split <;> rfl

/-- A match of words is not refused. -/
theorem refusalOfClause_wordsClause (key : String) (value : Value) :
    refusalOfClause (wordsClause key value) = none := by
  unfold wordsClause
  split
  · split <;> rfl
  · rfl

/-- Containment of every item is not refused. -/
theorem refusalOfClause_containsEvery (key : String) (value : Value) :
    refusalOfClause (containsEvery key value) = none := by
  -- By induction on the items: matching one of them may fail, but is never out of range.
  have each (items : List Value) : refusalOfClause (items.mapM (matchOne key)) = none := by
    induction items with
    | nil => rfl
    | cons item rest ih =>
      rw [List.mapM_cons]
      exact refusalOfClause_bind (refusalOfClause_matchOne key item) fun clause =>
        (refusalOfClause_map _ _).trans ih
  refine refusalOfClause_bind (each (itemsOrSelf value)) fun clauses => ?_
  split <;> rfl

/-- A range overflows with an integer that none can hold. -/
theorem refusalOfClause_rangeClause (key : String) (side : RangeSide) (value : Value) :
    refusalOfClause (rangeClause key side value) =
      if outOfRange value then some .overflow else none := by
  -- Only an integer too large for any bound is refused; everything else is a bound or unsuited.
  have bound : refusalOfClause (Bound.ofValue value) =
      if outOfRange value then some .overflow else none := by
    unfold Bound.ofValue outOfRange
    cases value with
    | int number =>
      dsimp only
      split
      · rename_i nearest held
        simp [held, refusalOfClause]
      · rename_i beyond
        simp [beyond, refusalOfClause]
    | float number =>
      dsimp only
      split <;> rfl
    | text words =>
      dsimp only
      split <;> rfl
    | _ => rfl
  exact (refusalOfClause_map _ _).trans bound

/-- A clause on a payload key is refused for a range, or for a set that it matches with. -/
theorem refusalOfClause_keyClause (key : String) (operator : Operator) (value : Value) :
    refusalOfClause (keyClause key operator value) =
      if isRange operator && outOfRange value then some .overflow
      else if isMembership operator then refusalOf value.checkSortable
      else none := by
  have ranged (side : RangeSide) :
      refusalOfClause (do return Converted.clause (← rangeClause key side value)) =
        if outOfRange value then some .overflow else none :=
    (refusalOfClause_map _ _).trans (refusalOfClause_rangeClause key side value)
  -- Every other clause is made of a result that is not refused.
  cases operator with
  | greater | atLeast | less | atMost =>
    refine (ranged _).trans ?_
    cases outOfRange value <;> rfl
  | equal | notEqual => exact (refusalOfClause_map _ _).trans (refusalOfClause_equality key value)
  | oneOf | containsAny | noneOf =>
    exact (refusalOfClause_map _ _).trans (refusalOfClause_matchList value)
  | contains => exact (refusalOfClause_map _ _).trans (refusalOfClause_matchOne key value)
  | containsAll => exact refusalOfClause_containsEvery key value
  | «matches» => exact (refusalOfClause_map _ _).trans (refusalOfClause_wordsClause key value)
  | _ => rfl

/-- A clause is refused as what it is taken for. -/
theorem refusalOfClause_clause (result : Except BoundFault Clause) :
    refusalOfClause (result.map Converted.clause) = refusalOfClause result := by
  rcases result with (fault | _) | given <;> rfl

end Refusals

section Written

/-- Clauses can be written where each of them can. -/
theorem allWritable_iff {clauses : List Clause} :
    Clause.allWritable clauses = true ↔ ∀ clause ∈ clauses, clause.isWritable = true := by
  induction clauses with
  | nil => simp [Clause.allWritable]
  | cons clause rest ih => simp [Clause.allWritable, ih]

/-- Whether what a condition is converted to can be written. -/
def isLight (converted : Converted) : Bool :=
  converted.clause?.all Clause.isWritable

/-- A match with a value that can be shown can be written. -/
theorem isWritable_matchOne {key : String} {value : Value} {clause : Clause}
    (made : matchOne key value = .ok clause) (shown : value.canInspect = true) :
    clause.isWritable = true := by
  have scalar := Value.canInspect_scalar shown
  unfold matchOne at made
  split at made
  · rename_i found read
    cases made
    -- What is matched is a text, an integer or a truth value, and so the scalar itself.
    unfold MatchValue.ofValue at read
    split at read
    · cases read
      rfl
    · rename_i number same
      cases read
      rwa [same] at scalar
    · cases read
      rfl
    · exact nomatch read
  · exact nomatch made

/-- Integers that are read from values are those values. -/
theorem mem_of_ints {items : List Value} {numbers : List Int}
    (made : items.mapM MatchList.int? = some numbers) :
    ∀ number ∈ numbers, Value.int number ∈ items := by
  induction items generalizing numbers with
  | nil =>
    cases made
    exact List.forall_mem_nil _
  | cons item rest ih =>
    rw [List.mapM_cons] at made
    obtain ⟨number, first, made⟩ := Option.bind_eq_some_iff.mp made
    obtain ⟨others, later, same⟩ := Option.bind_eq_some_iff.mp made
    cases same
    -- Only an integer has the integer of a value.
    have here : item = .int number := by
      cases item <;> first | exact congrArg Value.int (Option.some.inj first) | exact nomatch first
    exact List.forall_mem_cons.mpr ⟨here ▸ List.mem_cons_self,
      fun other member => List.mem_cons_of_mem _ (ih later other member)⟩

/-- A list to match with can be written where its literal can be shown. -/
theorem isWritable_matchList {value : Value} {list : MatchList}
    (made : MatchList.ofValue value = .ok list) (shown : value.canInspect = true) :
    list.toValues.all Value.canInspect = true := by
  have items : ∀ item ∈ (value.orderedItems?.getD [value]).map Value.scalar,
      item.canInspect = true := by
    refine List.forall_mem_map.mpr fun item member => Value.canInspect_scalar ?_
    exact Value.canInspect_of_items shown item (Value.mem_orderedItems.mp member)
  unfold MatchList.ofValue at made
  obtain ⟨-, -, made⟩ := ok_of_bind made
  dsimp only at made
  -- Texts can always be written, and the integers are those of the literal.
  split at made
  · exact nomatch made
  · split at made
    · cases made
      simp [MatchList.toValues, Value.canInspect]
    · split at made
      · rename_i numbers read
        cases made
        refine List.all_eq_true.mpr (List.forall_mem_map.mpr fun number member => ?_)
        exact items _ (mem_of_ints read number member)
      · exact nomatch made

/-- Containment of items that can be shown can be written. -/
theorem isLight_containsEvery {key : String} {value : Value} {converted : Converted}
    (made : containsEvery key value = .ok converted) (shown : value.canInspect = true) :
    isLight converted = true := by
  -- Each clause holds an item of the value, and what can be shown can be written.
  obtain ⟨clauses, each, made⟩ := ok_of_bind made
  have written : ∀ clause ∈ clauses, clause.isWritable = true := by
    intro clause member
    obtain ⟨item, among, one⟩ := (mem_of_mapM each).2 clause member
    exact isWritable_matchOne one (Value.canInspect_of_items shown item among)
  split at made
  · cases made
    rfl
  · cases made
    exact written _ (List.mem_singleton_self _)
  · cases made
    simp [isLight, Converted.clause?, Clause.isWritable, Clause.allWritable,
      allWritable_iff.mpr written]

/-- A clause that is denied can be written where the clause can. -/
theorem isWritable_negated (clause : Clause) :
    clause.negated.isWritable = clause.isWritable := by
  simp [Clause.negated, Clause.isWritable, Clause.allWritable]

/-- A clause on a payload key can be written where its literal can be shown. -/
theorem isLight_keyClause {key : String} {operator : Operator} {value : Value}
    {converted : Converted} (made : keyClause key operator value = .ok converted)
    (shown : value.canInspect = true) : isLight converted = true := by
  -- By cases on the operator, which decides the clause that its literal is written to.
  have equal {clause : Clause} (made : equality key value = .ok clause) :
      clause.isWritable = true := by
    unfold equality at made
    split at made
    · cases made
      rfl
    · exact isWritable_matchOne made shown
  have listed {list : MatchList} (made : matchList value = .ok list) :
      list.toValues.all Value.canInspect = true := by
    unfold matchList at made
    cases read : MatchList.ofValue value with
    | error fault =>
      rw [read] at made
      cases made
    | ok values =>
      rw [read] at made
      cases made
      exact isWritable_matchList read shown
  cases operator with
  | equal =>
    obtain ⟨clause, read, same⟩ := ok_of_bind made
    cases same
    exact equal read
  | notEqual =>
    obtain ⟨clause, read, same⟩ := ok_of_bind made
    cases same
    exact (isWritable_negated clause).trans (equal read)
  -- The end of a range is no integer that could be too long.
  | greater | atLeast | less | atMost =>
    obtain ⟨clause, read, same⟩ := ok_of_bind made
    obtain ⟨bound, -, made⟩ := ok_of_bind read
    cases made
    cases same
    rfl
  | oneOf | containsAny | noneOf =>
    obtain ⟨list, read, same⟩ := ok_of_bind made
    cases same
    exact listed read
  | contains =>
    obtain ⟨clause, read, same⟩ := ok_of_bind made
    cases same
    exact isWritable_matchOne read shown
  | containsAll => exact isLight_containsEvery made shown
  | «matches» =>
    obtain ⟨clause, read, same⟩ := ok_of_bind made
    cases same
    unfold wordsClause at read
    split at read
    · split at read
      · cases read
      · cases read
        rfl
    · cases read
  | defined | undefined | startsWith | endsWith | references =>
    cases made
    rfl

/-- Identifiers of values that can be shown can be written. -/
theorem isWritable_idClause {values : List Value} {clause : Clause}
    (made : idClause values = .ok clause) (shown : ∀ value ∈ values, value.canInspect = true) :
    clause.isWritable = true := by
  have written {value : Value} {id : PointId} (made : PointId.ofValue value = .ok id)
      (shown : value.canInspect = true) : id.isWritable = true := by
    -- An identifier is an integer that is not negative, or it has the form of a text.
    unfold PointId.ofValue at made
    split at made
    · cases made
      rfl
    · cases made
      exact shown
    · exact nomatch made
    · split at made
      · cases made
        rfl
      · exact nomatch made
    · exact nomatch made
  obtain ⟨ids, read, same⟩ := ok_of_bind made
  cases same
  cases each : values.mapM PointId.ofValue with
  | error fault =>
    rw [each] at read
    exact nomatch read
  | ok ids' =>
    rw [each] at read
    cases read
    refine List.all_eq_true.mpr fun id member => ?_
    obtain ⟨value, among, one⟩ := (mem_of_mapM each).2 id member
    exact written one (shown value among)

/-- A clause of identifiers can be written where its literal can be shown. -/
theorem isLight_idComparison {operator : Operator} {value : Value}
    {clause : Clause} (made : idComparison? operator value = some (.ok clause))
    (shown : value.canInspect = true) : isLight (.clause clause) = true := by
  -- An identifier is the value or one of its items, and the operator decides which.
  have one : ∀ item ∈ [value], item.canInspect = true := List.forall_mem_singleton.mpr shown
  have several := Value.canInspect_of_items shown
  have negated {values : List Value} (made : (idClause values).map Clause.negated = .ok clause)
      (shown : ∀ value ∈ values, value.canInspect = true) : clause.isWritable = true := by
    obtain ⟨inner, read, rfl⟩ := exists_of_map made
    exact (isWritable_negated inner).trans (isWritable_idClause read shown)
  cases operator with
  | equal => exact isWritable_idClause (Option.some.inj made) one
  | notEqual => exact negated (Option.some.inj made) one
  | oneOf => exact isWritable_idClause (Option.some.inj made) several
  | noneOf => exact negated (Option.some.inj made) several
  | _ => exact nomatch made

end Written

section Decided

variable (payloadPrefix : Value)

/-- A leaf is accounted for by its notices, and by the clause that it is converted to. -/
def Accounts (attempt : Attempt) (converted : Converted) (notices : List Notice) : Prop :=
  Noticed (carries payloadPrefix) attempt notices ∧
    (isLight converted = false → overlong payloadPrefix attempt = true)

/-- A leaf that is dropped with a notice is not refused. -/
theorem decides_dropped {field value : Value} {comparison : Comparison} {reason : Reason}
    {message word : String} (same : word = comparison.word)
    (about : reason ∈ [.unsupportedOperator, .invalidField, .invalidValue]) :
    Decides (do Compile.degrade reason message field (.text word); return Converted.dropped) none
      (Accounts payloadPrefix (.leaf field comparison value)) := by
  subst same
  exact .noted ⟨fun _ => ⟨_, List.mem_singleton_self _, rfl, rfl, about⟩, nofun⟩

/-- A literal that no clause can carry drops its leaf with a notice, or it is refused. -/
theorem decides_orNotice {path : String} {operator : Operator} {value : Value}
    {result : Except BoundFault Converted}
    (carried : ∀ converted, result = .ok converted →
      carries payloadPrefix (.leaf (.text path) (.known operator) value) = true ∧
        (value.canInspect = true → isLight converted = true)) :
    (orNotice (.text path) operator result).Decides (refusalOfClause result)
      (Accounts payloadPrefix (.leaf (.text path) (.known operator) value)) := by
  -- A clause that was built accounts for itself; without one the leaf is dropped with a notice or
  -- refused.
  cases result with
  | ok converted =>
    obtain ⟨carried, light⟩ := carried converted rfl
    refine .pure ⟨fun lost => absurd carried (by simp [lost]), fun heavy => ?_⟩
    -- A clause too heavy to be written holds a value that could not be shown.
    have hidden : value.canInspect = false := by
      rw [← Bool.not_eq_true]
      exact fun shown => absurd (light shown) (by simp [heavy])
    rw [overlong, carried, Attempt.isOverlong, hidden]
    rfl
  | error fault =>
    cases fault with
    | unsuited fault =>
      have dropped := decides_dropInvalidValue (.text path) operator
        (rfl : (.error fault : Except FormatFault Converted) = .error fault)
      refine dropped.before fun _ notices named => .pure ⟨fun _ => ?_, nofun⟩
      rwa [List.append_nil]
    | overflow => exact .refuse

/-- A leaf is carried over, dropped with a notice, or refused. -/
theorem decides_convertLeaf (field : Value) (comparison : Comparison) (value : Value) :
    (convertLeaf payloadPrefix field comparison value).Decides
      (refusal? (.leaf field comparison value))
      (Accounts payloadPrefix (.leaf field comparison value)) := by
  -- Operator and path come first; what is left is decided by the clause of the literal.
  cases comparison with
  | unknown word => exact decides_dropped payloadPrefix rfl (by simp)
  | known operator =>
    unfold convertLeaf refusal?
    dsimp only
    split
    · rename_i supported
      cases field with
      | null => exact decides_dropped payloadPrefix rfl (by simp)
      | text path =>
        dsimp only
        split
        · rename_i valid
          have carried : carries payloadPrefix (.leaf (.text path) (.known operator) value) =
              hasClause payloadPrefix path operator value := by
            simp [carries, supported, valid]
          rw [valid, Bool.not_true, if_neg Bool.false_ne_true]
          unfold convertComparison
          -- The identifier of a point is compared by a clause of its own.
          by_cases id : path = "_id"
          · rw [if_pos id, if_pos id]
            split
            · rename_i result compared
              rw [compared, Option.bind_some, ← refusalOfClause_clause]
              refine decides_orNotice payloadPrefix fun converted made => ?_
              obtain ⟨clause, rfl, rfl⟩ := exists_of_map made
              refine ⟨?_, isLight_idComparison compared⟩
              rw [carried, hasClause, if_pos id, compared]
              rfl
            · rename_i uncompared
              rw [uncompared]
              exact decides_dropped payloadPrefix rfl (by simp)
          · rw [if_neg id, if_neg id, ← refusalOfClause_keyClause (fieldKey payloadPrefix path)]
            refine decides_orNotice payloadPrefix fun converted made => ⟨?_, isLight_keyClause made⟩
            rw [carried, hasClause, if_neg id, made]
            rfl
        · rename_i invalid
          simp only [Bool.not_eq_true] at invalid
          rw [invalid]
          exact decides_dropped payloadPrefix rfl (by simp)
      | _ => exact .refuse
    · exact decides_dropped payloadPrefix rfl (by simp)

/-- What is tried is accounted for by notices, and by clauses that are as long as literals. -/
structure AccountsAll (tried : List Attempt) (results : List Converted) (notices : List Notice) :
    Prop where
  told : Told (carries payloadPrefix) tried notices
  light : ∀ result ∈ results, isLight result = false →
    ∃ attempt ∈ tried, overlong payloadPrefix attempt = true

variable {payloadPrefix}

/-- What is made of results can be written where they can. -/
theorem AccountsAll.joined {tried : List Attempt} {results : List Converted}
    {notices notices' : List Notice} {converted : Converted}
    (accounts : AccountsAll payloadPrefix tried results notices) (kept : notices ⊆ notices')
    (made : (∀ result ∈ results, isLight result = true) → isLight converted = true) :
    AccountsAll payloadPrefix tried [converted] notices' where
  told := accounts.told.within kept
  light := List.forall_mem_singleton.mpr fun heavy => by
    -- One of the results cannot be written, or what is made of them could be.
    by_contra none_
    refine absurd (made fun result member => ?_) (by simp [heavy])
    rw [← Bool.not_eq_false]
    exact fun heavy' => none_ (accounts.light result member heavy')

/-- What is tried first and what is tried then are accounted for together. -/
theorem AccountsAll.append {tried tried' : List Attempt} {results results' : List Converted}
    {notices notices' : List Notice} (accounts : AccountsAll payloadPrefix tried results notices)
    (accounts' : AccountsAll payloadPrefix tried' results' notices') :
    AccountsAll payloadPrefix (tried ++ tried') (results ++ results') (notices ++ notices') where
  told := accounts.told.append accounts'.told
  light result member heavy := by
    rcases List.mem_append.mp member with first | then_
    · obtain ⟨attempt, among, heavy⟩ := accounts.light result first heavy
      exact ⟨attempt, List.mem_append_left _ among, heavy⟩
    · obtain ⟨attempt, among, heavy⟩ := accounts'.light result then_ heavy
      exact ⟨attempt, List.mem_append_right _ among, heavy⟩

/-- Clauses that are joined can be written where each of them can. -/
theorem isLight_joined {join : List Clause → Clause} {results : List Converted}
    (light : ∀ result ∈ results, isLight result = true)
    (join_ : ∀ clauses, Clause.allWritable clauses = true → (join clauses).isWritable = true) :
    isLight (joined join results) = true := by
  -- A clause that holds others is written when all of them are.
  have each : ∀ clause ∈ results.filterMap Converted.clause?, clause.isWritable = true := by
    intro clause member
    obtain ⟨result, among, same⟩ := List.mem_filterMap.mp member
    have written := light result among
    rwa [isLight, same] at written
  unfold joined
  split
  · split <;> rfl
  · rename_i only found
    exact each only (by rw [found]; exact List.mem_singleton_self _)
  · exact join_ _ (allWritable_iff.mpr each)

/-- The conjunction of what can be written can be written. -/
theorem isLight_conjunction {results : List Converted}
    (light : ∀ result ∈ results, isLight result = true) :
    isLight (conjunction results) = true :=
  isLight_joined light fun clauses written => by
    simp [Clause.isWritable, written, Clause.allWritable]

/-- The disjunction of what can be written can be written. -/
theorem isLight_disjunction {results : List Converted}
    (light : ∀ result ∈ results, isLight result = true) :
    isLight (disjunction results) = true := by
  -- An unconstrained disjunction writes nothing at all.
  unfold disjunction
  split
  · rfl
  · exact isLight_joined light fun clauses written => by
      simp [Clause.isWritable, written, Clause.allWritable]

variable (payloadPrefix)

/-- A negation is never refused, and it can be written where its operand can. -/
theorem decides_negation (converted : Converted) :
    (negation converted).Decides none fun result _ =>
      isLight converted = true → isLight result = true := by
  cases converted with
  | clause clause =>
    refine .pure fun written => ?_
    simpa [isLight, Converted.clause?, Clause.negated, Clause.isWritable, Clause.allWritable]
      using written
  | dropped => exact .pure fun _ => rfl
  | unconstrained => exact .noted fun _ => rfl

-- By induction on the conditions: a refusal of a part is one of the whole, and notices stay.
mutual

/-- A condition is refused for the first leaf that refuses, and accounted for if none does. -/
theorem decides_convert : (condition : Condition) →
    (convert payloadPrefix condition).Decides ((leaves condition).findSome? refusal?)
      fun result notices => AccountsAll payloadPrefix (leaves condition) [result] notices
  -- By induction on the condition: the connectives refuse nothing themselves, and write no more
  -- than their members do.
  | .leaf field comparison value =>
    (decides_convertLeaf payloadPrefix field comparison value).single.mono
      fun _ _ ⟨noticed, light⟩ => ⟨told_single noticed, List.forall_mem_singleton.mpr fun heavy =>
        ⟨_, List.mem_singleton_self _, light heavy⟩⟩
  | .all conditions =>
    (decides_convertAll conditions).map fun _ _ accounts =>
      accounts.joined (List.Subset.refl _) isLight_conjunction
  | .any conditions => by
    have inside := decides_convertAll conditions
    unfold convert
    split
    · rename_i empty
      rw [List.isEmpty_iff.mp empty]
      exact .noted ⟨told_nil, List.forall_mem_singleton.mpr nofun⟩
    · exact inside.map fun _ _ accounts =>
        accounts.joined (List.Subset.refl _) isLight_disjunction
  | .not condition =>
    (decides_convert condition).before fun converted _ accounts =>
      (decides_negation converted).mono fun _ _ light =>
        accounts.joined (List.subset_append_left _ _) fun each =>
          light (each converted (List.mem_singleton_self _))
termination_by structural condition => condition

/-- Conditions are refused for the first leaf that refuses, and accounted for if none does. -/
theorem decides_convertAll : (conditions : List Condition) →
    (convertAll payloadPrefix conditions).Decides ((leavesAll conditions).findSome? refusal?)
      (AccountsAll payloadPrefix (leavesAll conditions))
  -- By induction on the conditions, in the order of their leaves.
  | [] => .pure ⟨told_nil, List.forall_mem_nil _⟩
  | condition :: rest => by
    have later := decides_convertAll rest
    unfold convertAll leavesAll
    rw [List.findSome?_append]
    exact (decides_convert condition).bind fun converted _ accounts =>
      later.map fun _ _ accounts' => accounts.append accounts'
termination_by structural conditions => conditions

end

end Decided

/-- The filter that converted conditions come to, beside what is excluded. -/
def filterFrom (query : Query) (excluded : List Clause) (results : List Converted) :
    Option Clause :=
  let required := typeClause query ++ results.flatMap conjuncts
  if required.isEmpty && excluded.isEmpty then none else some (.filter required [] excluded)

/-- A filter can be written where everything that it is made of can. -/
theorem filterFrom_written {query : Query} {excluded : List Clause} {results : List Converted} :
    (filterFrom query excluded results).all Clause.isWritable = true ↔
      Clause.allWritable (typeClause query ++ results.flatMap conjuncts) = true ∧
        Clause.allWritable excluded = true := by
  -- The filter is written when both its parts are, and an absent one is nothing to write.
  unfold filterFrom
  dsimp only
  split
  · rename_i empty
    obtain ⟨required, excluded_⟩ := Bool.and_eq_true_iff.mp empty
    rw [List.isEmpty_iff.mp required, List.isEmpty_iff.mp excluded_]
    exact iff_of_true rfl ⟨rfl, rfl⟩
  · simp [Clause.isWritable, Clause.allWritable]

/-- The conjuncts of what can be written can be written. -/
theorem conjuncts_written {converted : Converted} (light : isLight converted = true) :
    ∀ clause ∈ conjuncts converted, clause.isWritable = true := by
  -- A conjunction is spread into clauses that were written as one before.
  unfold conjuncts
  split
  · exact List.forall_mem_nil _
  · exact List.forall_mem_nil _
  · refine allWritable_iff.mp ?_
    simpa [isLight, Converted.clause?, Clause.isWritable, Clause.allWritable] using light
  · exact List.forall_mem_singleton.mpr light

/-- Behind global conditions that can be written, only overlong literals cannot be. -/
theorem overlong_of_filter {payloadPrefix : Value} {query : Query} {excluded : List Clause}
    {tried : List Attempt} {results everywhere : List Converted} {notices : List Notice}
    (accounts : AccountsAll payloadPrefix tried results notices)
    (written : (filterFrom query excluded everywhere).all Clause.isWritable = true)
    (long : (filterFrom query excluded (results ++ everywhere)).all Clause.isWritable = false) :
    ∃ attempt ∈ tried, overlong payloadPrefix attempt = true := by
  obtain ⟨required, excluded_⟩ := filterFrom_written.mp written
  -- Something of the filter cannot be written, which only the results before the others can be.
  by_contra none_
  rw [← Bool.not_eq_true] at long
  refine long (filterFrom_written.mpr ⟨allWritable_iff.mpr fun clause member => ?_, excluded_⟩)
  rw [List.flatMap_append] at member
  rcases List.mem_append.mp member with typed | others
  · exact allWritable_iff.mp required clause (List.mem_append_left _ typed)
  · rcases List.mem_append.mp others with own | global
    · obtain ⟨result, among, inside⟩ := List.mem_flatMap.mp own
      refine conjuncts_written ?_ clause inside
      rw [← Bool.not_eq_false]
      exact fun heavy => none_ (accounts.light result among heavy)
    · exact allWritable_iff.mp required clause (List.mem_append_right _ global)

/-- A query that compiles without conditions comes to what the leaves of its own conditions do. -/
theorem compile_comesTo {configuration : Configuration} {query : Query} {own : List Condition}
    {bare : Scroll} (lenient : configuration.settings.strict.isTruthy = false)
    (built : compile configuration query [] = .ok bare) :
    ComesTo refusal? (carries configuration.payloadPrefix) (overlong configuration.payloadPrefix)
      (leavesAll own) Compiled.notices (compile configuration query own) := by
  -- The bare query compiles, so that only the conditions of the query can refuse.
  obtain ⟨after, converted, -⟩ := filter_of_compile built
  obtain ⟨ran, written⟩ := Qdrant.run_of_compile built
  -- Neither drafts nor global conditions refused, so that only the query's own conditions can.
  obtain ⟨excluded, between, drafted, converted⟩ := Compile.ok_of_bind converted
  obtain ⟨results, reached, globally, converted⟩ := Compile.ok_of_bind converted
  have same : bare.query = filterFrom query excluded results :=
    (Prod.mk.inj (Except.ok.inj converted)).1.symm
  rw [List.nil_append] at globally
  obtain ⟨noted, -, drafts, -⟩ := (ensures_draftClause configuration query).of_run drafted
  obtain ⟨others, -, everywhere, -⟩ :=
    (ensures_convertAll configuration.payloadPrefix _).of_run globally
  rw [same] at written
  have decided : (filterOf configuration query own).Decides ((leavesAll own).findSome? refusal?)
      fun filter notices => Told (carries configuration.payloadPrefix) (leavesAll own) notices ∧
        (filter.all Clause.isWritable = false →
          ∃ attempt ∈ leavesAll own, overlong configuration.payloadPrefix attempt = true) := by
    have converts : (convertAll configuration.payloadPrefix
        (own ++ configuration.settings.globalFilter.conditionList)).Decides
          ((leavesAll own).findSome? refusal?) fun converted notices =>
            ∃ mine, converted = mine ++ results ∧
              ∃ given, given ⊆ notices ∧
                AccountsAll configuration.payloadPrefix (leavesAll own) mine given := by
      rw [convertAll_append]
      refine (decides_convertAll _ own).before fun mine given accounts => ?_
      exact ⟨_, _, everywhere.map (mine ++ ·), mine, rfl, given, List.subset_append_left _ _,
        accounts⟩
    have excludes : (draftClause configuration query).Decides none fun found _ =>
        found = excluded := ⟨excluded, noted, drafts, rfl⟩
    refine excludes.after fun _ _ found => converts.map fun converted notices tried => ?_
    obtain ⟨mine, rfl, given, kept, accounts⟩ := tried
    rw [found]
    refine ⟨accounts.told.within fun notice member => ?_, overlong_of_filter accounts written⟩
    exact List.mem_append_right _ (kept member)
  rw [convertQuery_eq] at ran
  unfold compile
  rw [convertQuery_eq]
  have blind : (filterOf configuration query []).Blind :=
    (ensures_filterOf configuration query []).mono fun _ _ _ => trivial
  exact comesTo_of_decides lenient ran blind decided
    fun filter filter' context result after notices ended =>
      passThrough_of_run (steady_optionsOf configuration query) ended notices

end ContentQuery.Qdrant
