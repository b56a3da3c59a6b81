import ContentQuery.Proofs.Groq.Leaf
import ContentQuery.Proofs.Groq.Slots

/-! Every placeholder of a filter is bound to the literal that it was written for. -/

namespace ContentQuery.Groq

/-- Whether literals are bound to the slots from one on, one after the other. -/
def BoundFrom (bindings : List Value) (slot : Nat) (literals : List Value) : Prop :=
  ∀ index < literals.length, bindings[slot + index]? = literals[index]?

section BoundFrom

variable {bindings literals : List Value} {slot : Nat}

/-- Literals in two lists are bound when those of the second are behind those of the first. -/
theorem boundFrom_append {literals' : List Value} :
    BoundFrom bindings slot (literals ++ literals') ↔ BoundFrom bindings slot literals ∧
      BoundFrom bindings (slot + literals.length) literals' := by
  -- The second literals are bound behind the first, as many slots on as the first are.
  constructor
  · intro bound
    refine ⟨fun index inside => ?_, fun index inside => ?_⟩
    · rw [bound index (by simp; omega), List.getElem?_append_left inside]
    · have here := bound (literals.length + index) (by simp; omega)
      rw [← Nat.add_assoc] at here
      rw [here, List.getElem?_append_right (by omega), Nat.add_sub_cancel_left]
  · rintro ⟨first, second⟩ index inside
    by_cases early : index < literals.length
    · rw [first index early, List.getElem?_append_left early]
    · have here := second (index - literals.length) (by simp at inside; omega)
      have same : slot + literals.length + (index - literals.length) = slot + index := by omega
      rw [same] at here
      rw [here, List.getElem?_append_right (by omega)]

/-- The slots of literals that are bound are slots that something is bound to. -/
theorem BoundFrom.lt_length (bound : BoundFrom bindings slot literals) {used : Nat}
    (among : used ∈ List.range' slot literals.length) : used < bindings.length := by
  -- A slot among them holds a literal, and so lies within the bindings.
  obtain ⟨index, inside, rfl⟩ := List.mem_range'.mp among
  have there : bindings[slot + 1 * index]? = some literals[index] := by
    rw [Nat.one_mul, bound index inside]
    exact List.getElem?_eq_getElem inside
  exact (List.getElem?_eq_some_iff.mp there).1

end BoundFrom

mutual

/--
Whether a result is what a condition is converted to, each leaf with its own literals.

The literals of a leaf are bound to the slots that its expression names, and a leaf that binds none
because it cannot be carried is left out.
-/
def Carries (bindings : List Value) : Condition → Option Expression → Prop
  | .leaf field comparison value, result =>
    match boundOf? field comparison value with
    | none => result = none
    | some literals => ∃ slot, BoundFrom bindings slot literals ∧
        result = some (leafOf field comparison value slot)
  | .all conditions, result =>
    ∃ parts, CarryAll bindings conditions parts ∧ result = conjunction conditions.length parts
  | .any conditions, result =>
    ∃ parts, CarryAll bindings conditions parts ∧ result = disjunction conditions.length parts
  | .not condition, result =>
    ∃ operand, Carries bindings condition operand ∧ result = negation operand
termination_by structural condition => condition

/-- Whether expressions are what conditions are converted to, each leaf with its own literals. -/
def CarryAll (bindings : List Value) : List Condition → List Expression → Prop
  | [], parts => parts = []
  | condition :: rest, parts => ∃ part others, Carries bindings condition part ∧
      CarryAll bindings rest others ∧ parts = part.toList ++ others
termination_by structural conditions => conditions

end

mutual

/-- A condition is converted to what carries its literals, whatever is bound later. -/
theorem ensures_carries : (condition : Condition) → (slot : Nat) →
    (convert condition).Ensures slot fun result literals _ =>
      ∀ bindings, BoundFrom bindings slot literals → Carries bindings condition result
  -- By induction on the condition. A leaf is given the next slots for its literals, and a
  -- connective passes on those of its members.
  | .leaf field comparison value, slot => by
    have converted := convertsLeaf field comparison value
    unfold ConvertsLeaf at converted
    unfold convert
    split at converted
    · rename_i literals carried
      refine ⟨_, _, _, converted slot, fun bindings bound => ?_⟩
      unfold Carries
      rw [carried]
      exact ⟨slot, bound, rfl⟩
    · rename_i dropped
      obtain ⟨notice, -, gives⟩ := converted
      refine ⟨_, _, _, gives slot, fun bindings _ => ?_⟩
      unfold Carries
      rw [dropped]
  | .all conditions, slot =>
    .bind (ensures_carryAll conditions slot) fun parts literals _ carry =>
      .pure fun bindings bound => ⟨parts, carry bindings (by simpa using bound), rfl⟩
  | .any conditions, slot =>
    .bind (ensures_carryAll conditions slot) fun parts literals _ carry =>
      .pure fun bindings bound => ⟨parts, carry bindings (by simpa using bound), rfl⟩
  | .not condition, slot =>
    .bind (ensures_carries condition slot) fun operand literals _ carry =>
      .pure fun bindings bound => ⟨operand, carry bindings (by simpa using bound), rfl⟩
termination_by structural condition => condition

/-- Conditions are converted to what carries their literals. -/
theorem ensures_carryAll : (conditions : List Condition) → (slot : Nat) →
    (convertAll conditions).Ensures slot fun parts literals _ =>
      ∀ bindings, BoundFrom bindings slot literals → CarryAll bindings conditions parts
  | [], slot => .pure fun _ _ => rfl
  | condition :: rest, slot =>
    .bind (ensures_carries condition slot) fun part literals _ first =>
      .bind (ensures_carryAll rest _) fun others literals' _ later =>
        .pure fun bindings bound => by
          -- The literals of the first condition come first, and the others start behind them.
          rw [List.append_nil] at bound
          obtain ⟨here, there⟩ := boundFrom_append.mp bound
          exact ⟨part, others, first bindings here, later bindings there, rfl⟩
termination_by structural conditions => conditions

end

section Leaves

variable {field : String} {slot : Nat}

/-- Containments name the slots of the literals that they are about. -/
theorem slots_chosen (json : Value) {vacant : Expression} {join : List Expression → Expression}
    (none_ : vacant.slots = []) (joins : ∀ parts, (join parts).slots = parts.flatMap (·.slots)) :
    ∀ used, used ∈ (chosen field slot vacant join json).slots ↔
      used ∈ List.range' slot (choicesOf json).length := by
  -- An expression is made for each item, and each of them names one slot.
  intro used
  unfold chosen
  split
  · rw [none_]
    exact Iff.rfl
  · rename_i items _
    have each (slots : List Nat) :
        (slots.map (Expression.holds · field)).flatMap (·.slots) = slots := by
      induction slots with
      | nil => rfl
      | cons first rest ih => exact congrArg (first :: ·) ih
    rw [joins, each]
    exact Iff.rfl
  · rename_i single
    rw [choicesOf_single (fun items same => single items same)]
    simp [Expression.slots]

/-- A single literal is bound to the first slot. -/
theorem mem_range'_single {literals : List Value} (one : literals.length = 1) (used : Nat) :
    used ∈ [slot] ↔ used ∈ List.range' slot literals.length := by
  rw [one]
  exact Iff.rfl

/-- What is bound as one literal is one. -/
theorem length_of_map_single {ε : Type} {form : Except ε Value} {literals : List Value}
    (made : form.map ([·]) = .ok literals) : literals.length = 1 := by
  obtain ⟨json, -, rfl⟩ := exists_of_map made
  rfl

/-- A comparison names the slots of the literals that it binds. -/
theorem slots_expressionOf {operator : Operator} {json : Value} {literals : List Value}
    (bound : boundBy operator json = .ok literals) :
    ∀ used, used ∈ (expressionOf field slot operator json).slots ↔
      used ∈ List.range' slot literals.length := by
  intro used
  cases operator with
  | defined | undefined =>
    cases bound
    exact Iff.rfl
  | oneOf | noneOf | startsWith | endsWith =>
    exact mem_range'_single (length_of_map_single bound) used
  | containsAny =>
    have joins : ∀ parts, (Expression.any parts).slots = parts.flatMap (·.slots) :=
      Expression.allSlots_eq_flatMap
    cases bound
    exact slots_chosen json rfl joins used
  | containsAll =>
    have joins : ∀ parts, (Expression.all parts).slots = parts.flatMap (·.slots) :=
      Expression.allSlots_eq_flatMap
    cases bound
    exact slots_chosen json rfl joins used
  | references =>
    cases bound
    -- The one slot of a reference is named twice.
    simp [expressionOf, Expression.slots]
  | _ =>
    cases bound
    exact mem_range'_single rfl used

/-- The literals that a leaf on a path binds are those that its form binds. -/
theorem boundBy_formOf {operator : Operator} {value : Value} {literals : List Value}
    (bound : boundByLeaf operator value = .ok literals) :
    boundBy operator (formOf value) = .ok literals := by
  -- Tests for existence bind nothing, whatever the form; the others had a form to look at.
  unfold boundByLeaf at bound
  split at bound
  · exact bound
  · exact bound
  · obtain ⟨json, made, bound⟩ := ok_of_bind bound
    rw [formOf, made]
    exact bound

/-- What is there of a result that may fail is the result. -/
theorem eq_ok_of_toOption {ε α : Type} {result : Except ε α} {given : α}
    (there : result.toOption = some given) : result = .ok given := by
  cases result with
  | error fault => exact nomatch there
  | ok found => exact congrArg Except.ok (Option.some.inj there)

/-- The expression of a leaf names the slots of the literals that the leaf binds. -/
theorem slots_leafOf {given : Value} {comparison : Comparison} {value : Value}
    {literals : List Value} (bound : boundOf? given comparison value = some literals) :
    ∀ used, used ∈ (leafOf given comparison value slot).slots ↔
      used ∈ List.range' slot literals.length := by
  -- A leaf that binds anything has a path, or refers without one; in both cases it names the slots
  -- it was given.
  cases comparison with
  | unknown word => exact nomatch bound
  | known operator =>
    unfold boundOf? at bound
    cases given with
    | text path =>
      dsimp only at bound
      split at bound
      · exact slots_expressionOf (boundBy_formOf (eq_ok_of_toOption bound))
      · exact nomatch bound
    | null =>
      dsimp only at bound
      split at bound
      · obtain ⟨json, -, same⟩ := ok_of_bind (eq_ok_of_toOption bound)
        cases same
        exact mem_range'_single rfl
      · exact nomatch bound
    | _ => exact nomatch bound

end Leaves

/-- The slots in what is left of a condition. -/
def slotsLeft (result : Option Expression) : List Nat :=
  result.toList.flatMap Expression.slots

section Joined

variable {given : Nat} {parts : List Expression}

/-- A slot of the expression that is left is one of what is left. -/
theorem mem_slotsLeft {result : Option Expression} {expression : Expression}
    (there : expression ∈ result) {used : Nat} (among : used ∈ expression.slots) :
    used ∈ slotsLeft result :=
  List.mem_flatMap.mpr ⟨expression, Option.mem_toList.mpr there, among⟩

/-- A conjunction names the slots of its parts, also where some of them constrain nothing. -/
theorem slotsLeft_conjunction :
    slotsLeft (conjunction given parts) = parts.flatMap Expression.slots := by
  have constraining :
      (parts.filter (!·.isAlways)).flatMap Expression.slots = parts.flatMap Expression.slots := by
    induction parts with
    | nil => rfl
    | cons part rest ih =>
      rw [List.filter_cons, List.flatMap_cons, ← ih]
      split
      · rfl
      · rename_i constant
        -- Of all expressions, only the constant is left out.
        have always : part.isAlways = true := by simpa using constant
        cases part <;> first | rfl | exact nomatch always
  simp only [conjunction]
  split
  · simpa [slotsLeft, Expression.slots] using constraining
  · rename_i none_
    rw [← constraining, show parts.filter (!·.isAlways) = [] by simpa using none_]
    split <;> rfl

/-- A disjunction names the slots of its parts, unless one of them constrains nothing. -/
theorem slotsLeft_disjunction (vacant : given = 0 → parts = []) :
    slotsLeft (disjunction given parts) =
      if parts.any Expression.isAlways then [] else parts.flatMap Expression.slots := by
  -- One alternative that always holds makes the whole hold, and then none of its slots is written.
  unfold disjunction
  split
  · rename_i none_
    rw [vacant (by simpa using none_)]
    rfl
  · split
    · rfl
    · split
      · rename_i empty
        rw [List.isEmpty_iff.mp empty]
        rfl
      · simp [slotsLeft, Expression.slots]

/-- A negation names the slots of its operand. -/
theorem slotsLeft_negation (operand : Option Expression) :
    slotsLeft (negation operand) = slotsLeft operand := by
  unfold negation
  split <;> simp [slotsLeft, Expression.slots]

end Joined

/-- Where there are no conditions, no expressions carry them. -/
theorem CarryAll.eq_nil {bindings : List Value} {conditions : List Condition}
    {parts : List Expression} (carry : CarryAll bindings conditions parts)
    (none_ : conditions.length = 0) : parts = [] := by
  rw [List.length_eq_zero_iff] at none_
  subst none_
  exact carry

-- By induction on the conditions: what a leaf names was bound for it, and joining names no more.
mutual

/-- An expression that carries its literals names only slots that something is bound to. -/
theorem Carries.slots_lt {bindings : List Value} : {condition : Condition} →
    {result : Option Expression} → Carries bindings condition result →
      ∀ expression ∈ result, ∀ used ∈ expression.slots, used < bindings.length
  -- By induction on the condition: what a connective writes was written by one of its members, and
  -- a leaf names the slots that hold its literals.
  | .leaf field comparison value, result, carries => by
    intro expression there used among
    unfold Carries at carries
    split at carries
    · rw [carries] at there
      exact nomatch there
    · rename_i literals bound
      obtain ⟨slot, held, rfl⟩ := carries
      cases there
      exact held.lt_length ((slots_leafOf bound used).mp among)
  | .all conditions, result, ⟨parts, carry, joined⟩ => by
    intro expression there used among
    have named := mem_slotsLeft there among
    rw [joined, slotsLeft_conjunction] at named
    obtain ⟨part, member, inside⟩ := List.mem_flatMap.mp named
    exact carry.slots_lt part member used inside
  | .any conditions, result, ⟨parts, carry, joined⟩ => by
    intro expression there used among
    have named := mem_slotsLeft there among
    rw [joined, slotsLeft_disjunction carry.eq_nil] at named
    split at named
    · exact nomatch named
    · obtain ⟨part, member, inside⟩ := List.mem_flatMap.mp named
      exact carry.slots_lt part member used inside
  | .not condition, result, ⟨operand, carries, negated⟩ => by
    intro expression there used among
    have named := mem_slotsLeft there among
    rw [negated, slotsLeft_negation] at named
    obtain ⟨part, member, inside⟩ := List.mem_flatMap.mp named
    exact carries.slots_lt part (Option.mem_toList.mp member) used inside
termination_by structural condition => condition

/-- Expressions that carry their literals name only slots that something is bound to. -/
theorem CarryAll.slots_lt {bindings : List Value} : {conditions : List Condition} →
    {parts : List Expression} → CarryAll bindings conditions parts →
      ∀ part ∈ parts, ∀ used ∈ part.slots, used < bindings.length
  -- By induction on the conditions, each of which carries its own part.
  | [], _, rfl => nofun
  | _ :: _, _, ⟨part, others, carries, carry, rfl⟩ =>
    List.forall_mem_append.mpr
      ⟨fun expression there => carries.slots_lt expression (Option.mem_toList.mp there),
        carry.slots_lt⟩
termination_by structural conditions => conditions

end

end ContentQuery.Groq
