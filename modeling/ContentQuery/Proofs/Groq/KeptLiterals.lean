import ContentQuery.Proofs.Groq.Placeholders

/-!
Literals that a filter keeps. A literal is bound while its fragment is built, and a fragment is
given up later only where an alternative beside it constrains nothing.
-/

namespace ContentQuery.Groq

mutual

/-- Whether nothing is left of a condition, since none of its leaves can be carried. -/
def isLost : Condition → Bool
  | .leaf field comparison value => (boundOf? field comparison value).isNone
  | .all conditions | .any conditions => !conditions.isEmpty && areLost conditions
  | .not condition => isLost condition
termination_by structural condition => condition

/-- Whether nothing is left of any of some conditions. -/
def areLost : List Condition → Bool
  | [] => true
  | condition :: rest => isLost condition && areLost rest
termination_by structural conditions => conditions

end

mutual

/-- Whether a condition is converted to the constant that constrains nothing. -/
def isFree : Condition → Bool
  | .leaf field comparison value =>
    (boundOf? field comparison value).isSome && (leafOf field comparison value 0).isAlways
  | .all conditions => (conditions.isEmpty || !areLost conditions) && areFree conditions
  | .any conditions => isAnyFree conditions
  -- The negation of a constant is the other one, and that is not negated to this one.
  | .not _ => false
termination_by structural condition => condition

/-- Whether whatever is left of some conditions constrains nothing. -/
def areFree : List Condition → Bool
  | [] => true
  | condition :: rest => (isLost condition || isFree condition) && areFree rest
termination_by structural conditions => conditions

/-- Whether one of some conditions constrains nothing. -/
def isAnyFree : List Condition → Bool
  | [] => false
  | condition :: rest => isFree condition || isAnyFree rest
termination_by structural conditions => conditions

end

mutual

/-- Which of the literals that a condition binds, in order, its expression still has. -/
def keptLiterals : Condition → List Bool
  | .leaf field comparison value => ((boundOf? field comparison value).getD []).map fun _ => true
  | .all conditions => allKeptLiterals conditions
  -- An alternative that constrains nothing takes the place of all of them.
  | .any conditions =>
    if isAnyFree conditions then (allKeptLiterals conditions).map fun _ => false
    else allKeptLiterals conditions
  | .not condition => keptLiterals condition
termination_by structural condition => condition

/-- Which of the literals that some conditions bind, in order, their expressions still have. -/
def allKeptLiterals : List Condition → List Bool
  | [] => []
  | condition :: rest => keptLiterals condition ++ allKeptLiterals rest
termination_by structural conditions => conditions

end

/-- The slots of the literals that are kept, where the first literal is bound to a slot. -/
def keptSlots : Nat → List Bool → List Nat
  | _, [] => []
  | slot, kept :: rest => (if kept then [slot] else []) ++ keptSlots (slot + 1) rest

/-- Of literals in two rows, those of both rows are kept. -/
theorem keptSlots_append (slot : Nat) (first second : List Bool) :
    keptSlots slot (first ++ second) =
      keptSlots slot first ++ keptSlots (slot + first.length) second := by
  -- By induction on the first literals; each moves the slot on by one, kept or not.
  induction first generalizing slot with
  | nil => rfl
  | cons kept rest ih =>
    rw [List.cons_append, keptSlots, keptSlots, ih, List.append_assoc, List.length_cons,
      Nat.add_assoc, Nat.add_comm 1]

/-- Where no literal is kept, there is no slot of one. -/
theorem keptSlots_none {α : Type} (slot : Nat) (items : List α) :
    keptSlots slot (items.map fun _ => false) = [] := by
  induction items generalizing slot with
  | nil => rfl
  | cons item rest ih => exact ih (slot + 1)

/-- Where all literals are kept, their slots are all in a row. -/
theorem keptSlots_all {α : Type} (slot : Nat) (items : List α) :
    keptSlots slot (items.map fun _ => true) = List.range' slot items.length := by
  induction items generalizing slot with
  | nil => rfl
  | cons item rest ih => exact congrArg (slot :: ·) (ih (slot + 1))

/-- A slot is one of those that are kept where the literal at its distance is. -/
theorem mem_keptSlots {slot used : Nat} {literals : List Bool} :
    used ∈ keptSlots slot literals ↔
      ∃ index, literals[index]? = some true ∧ used = slot + index := by
  -- By induction on the literals: a slot is kept where the literal at its distance is.
  induction literals generalizing slot with
  | nil => simp [keptSlots]
  | cons kept rest ih =>
    rw [keptSlots, List.mem_append, ih]
    constructor
    · rintro (here | ⟨index, there, rfl⟩)
      · cases kept with
        | false => exact nomatch here
        | true => exact ⟨0, rfl, List.mem_singleton.mp here⟩
      · exact ⟨index + 1, there, by omega⟩
    · rintro ⟨index, there, rfl⟩
      cases index with
      | zero =>
        cases Option.some.inj there
        exact .inl (List.mem_singleton.mpr rfl)
      | succ index => exact .inr ⟨index, there, by omega⟩

/-- What becomes of a condition, and of the literals that it binds from a slot on. -/
structure Accounts (condition : Condition) (slot : Nat) (result : Option Expression)
    (literals : List Value) : Prop where
  lost : result.isNone = isLost condition
  free : result.any Expression.isAlways = isFree condition
  count : literals.length = (keptLiterals condition).length
  slots : ∀ used, used ∈ slotsLeft result ↔ used ∈ keptSlots slot (keptLiterals condition)

/-- What becomes of conditions, and of the literals that they bind from a slot on. -/
structure AllAccount (conditions : List Condition) (slot : Nat) (parts : List Expression)
    (literals : List Value) : Prop where
  lost : parts.isEmpty = areLost conditions
  free : parts.all Expression.isAlways = areFree conditions
  anyFree : parts.any Expression.isAlways = isAnyFree conditions
  count : literals.length = (allKeptLiterals conditions).length
  slots : ∀ used, used ∈ parts.flatMap Expression.slots ↔
    used ∈ keptSlots slot (allKeptLiterals conditions)

/-- A leaf constrains nothing wherever its literals are bound, or nowhere. -/
theorem isAlways_leafOf (field : Value) (comparison : Comparison) (value : Value) (slot : Nat) :
    (leafOf field comparison value slot).isAlways =
      (leafOf field comparison value 0).isAlways := by
  -- Whether a leaf always holds hangs on its operator and on whether there is anything to choose
  -- from.
  have chosen_ (path : String) (vacant : Expression) (join : List Expression → Expression)
      (joins : ∀ parts, (join parts).isAlways = false) (json : Value) :
      (chosen path slot vacant join json).isAlways = (chosen path 0 vacant join json).isAlways := by
    unfold chosen
    split
    · rfl
    · rw [joins, joins]
    · rfl
  cases comparison with
  | unknown word => rfl
  | known operator =>
    cases field with
    | text path =>
      cases operator with
      | containsAny | containsAll => exact chosen_ path _ _ (fun _ => rfl) _
      | _ => rfl
    | _ => rfl

/-- A leaf keeps the literals that it binds. -/
theorem ensures_leaf_accounts (field : Value) (comparison : Comparison) (value : Value)
    (slot : Nat) : (convertLeaf field comparison value).Ensures slot fun result literals _ =>
      Accounts (.leaf field comparison value) slot result literals := by
  have converted := convertsLeaf field comparison value
  unfold ConvertsLeaf at converted
  -- A leaf is carried with all of its literals, or it is lost before it binds one.
  split at converted
  · rename_i literals bound
    refine ⟨_, _, _, converted slot, ?_⟩
    constructor
    · simp [isLost, bound]
    · simp [isFree, bound, isAlways_leafOf field comparison value slot]
    · simp [keptLiterals, bound]
    · intro used
      have named : used ∈ (leafOf field comparison value slot).slots ↔
          used ∈ List.range' slot literals.length := slots_leafOf bound used
      rw [keptLiterals, bound, Option.getD_some, keptSlots_all, ← named]
      simp [slotsLeft]
  · rename_i none_
    obtain ⟨notice, -, gives⟩ := converted
    refine ⟨_, _, _, gives slot, ?_⟩
    constructor
    · simp [isLost, none_]
    · simp [isFree, none_]
    · simp [keptLiterals, none_]
    · intro used
      simp [keptLiterals, none_, slotsLeft, keptSlots]

section Joined

variable {given : Nat} {parts : List Expression}

/-- A conjunction is left unless there were conditions and nothing is left of them. -/
theorem isNone_conjunction :
    (conjunction given parts).isNone = (!(given == 0) && parts.isEmpty) := by
  simp only [conjunction]
  split
  · rename_i some_
    -- A part that constrains something is a part.
    have filled : parts.isEmpty = false := by
      cases parts with
      | nil => exact absurd some_ (by decide)
      | cons part rest => rfl
    simp [filled]
  · cases parts <;> cases given <;> simp

/-- A conjunction is the constant if nothing in it constrains, unless nothing is left of it. -/
theorem isAlways_conjunction : (conjunction given parts).any Expression.isAlways =
    ((given == 0 || !parts.isEmpty) && parts.all Expression.isAlways) := by
  -- A conjunction always holds when all its parts do; without any part it has to have been empty
  -- from the start.
  have constraining : (parts.filter (!·.isAlways)).isEmpty = parts.all Expression.isAlways := by
    induction parts with
    | nil => rfl
    | cons part rest ih =>
      rw [List.filter_cons, List.all_cons, ← ih]
      cases part.isAlways <;> rfl
  simp only [conjunction]
  rw [constraining]
  cases parts.all Expression.isAlways with
  | false => simp [Expression.isAlways]
  | true =>
    cases parts <;> cases given <;> simp [Expression.isAlways]

/-- A disjunction is left unless there were conditions and nothing is left of them. -/
theorem isNone_disjunction :
    (disjunction given parts).isNone = (!(given == 0) && parts.isEmpty) := by
  -- A disjunction is lost when its branches were, and then only if it had any.
  unfold disjunction
  split
  · rename_i none_
    simp [none_]
  · rename_i some_
    split
    · rename_i free
      cases parts with
      | nil => exact nomatch free
      | cons part rest => simp
    · split <;> simp_all

/-- A disjunction is the constant if one of its parts is. -/
theorem isAlways_disjunction (vacant : given = 0 → parts = []) :
    (disjunction given parts).any Expression.isAlways = parts.any Expression.isAlways := by
  -- One part that always holds is enough; an empty disjunction was never free.
  unfold disjunction
  split
  · rename_i none_
    rw [vacant (by simpa using none_)]
    rfl
  · split
    · rename_i free
      rw [free]
      rfl
    · rename_i bound
      split
      · rename_i empty
        rw [List.isEmpty_iff.mp empty]
        rfl
      · simpa [Expression.isAlways] using bound

end Joined

section Nodes

variable {conditions : List Condition} {slot : Nat} {parts : List Expression}
  {literals : List Value}

/-- The literals of a conjunction are kept in the parts that are left. -/
theorem AllAccount.all (accounts : AllAccount conditions slot parts literals) :
    Accounts (.all conditions) slot (conjunction conditions.length parts) literals where
  lost := by
    -- A conjunction without conditions is the only one that is not lost with all of its parts.
    rw [isNone_conjunction, accounts.lost]
    cases conditions <;> rfl
  free := by
    rw [isAlways_conjunction, accounts.lost, accounts.free]
    cases conditions <;> rfl
  count := accounts.count
  slots used := by
    rw [slotsLeft_conjunction]
    exact accounts.slots used

/-- The literals of a disjunction are kept unless one of its parts constrains nothing. -/
theorem AllAccount.any (accounts : AllAccount conditions slot parts literals) :
    Accounts (.any conditions) slot (disjunction conditions.length parts) literals := by
  have vacant : conditions.length = 0 → parts = [] := fun none_ => by
    have empty := accounts.lost
    rw [List.length_eq_zero_iff.mp none_] at empty
    exact List.isEmpty_iff.mp empty
  constructor
  · rw [isNone_disjunction, accounts.lost]
    cases conditions <;> rfl
  · rw [isAlways_disjunction vacant, accounts.anyFree]
    rfl
  · unfold keptLiterals
    split
    · rw [List.length_map]
      exact accounts.count
    · exact accounts.count
  · intro used
    unfold keptLiterals
    rw [slotsLeft_disjunction vacant, accounts.anyFree]
    -- The parts are given up together, those beside the one that constrains nothing too.
    split
    · rw [keptSlots_none]
    · exact accounts.slots used

/-- The literals of a negation are those of its operand. -/
theorem Accounts.not {condition : Condition} {operand : Option Expression}
    (accounts : Accounts condition slot operand literals) :
    Accounts (.not condition) slot (negation operand) literals where
  lost := by
    -- A negation never always holds: what it negates either constrains or is lost.
    have lost := accounts.lost
    unfold isLost negation
    split <;> simpa using lost
  free := by
    unfold negation
    split <;> rfl
  count := accounts.count
  slots used := by
    rw [slotsLeft_negation]
    exact accounts.slots used

/-- The literals of conditions in a row are bound one after the other. -/
theorem Accounts.cons {condition : Condition} {part : Option Expression} {literals' : List Value}
    (first : Accounts condition slot part literals)
    (later : AllAccount conditions (slot + literals.length) parts literals') :
    AllAccount (condition :: conditions) slot (part.toList ++ parts) (literals ++ literals') where
  lost := by
    -- What is told of the first condition comes before what is told of the others, and its literals
    -- before theirs.
    rw [areLost, ← first.lost, ← later.lost]
    cases part <;> simp
  free := by
    rw [areFree, ← first.lost, ← first.free, ← later.free]
    cases part <;> simp
  anyFree := by
    rw [isAnyFree, ← first.free, ← later.anyFree]
    cases part <;> simp
  count := by
    rw [allKeptLiterals, List.length_append, List.length_append, first.count, later.count]
  slots used := by
    rw [allKeptLiterals, keptSlots_append, ← first.count, List.flatMap_append, List.mem_append,
      List.mem_append, ← later.slots, ← first.slots]
    rfl

end Nodes

-- By induction on the conditions: what is converted later binds behind what was bound before.
mutual

/-- A condition keeps its literals but for those of an `or` that constrains nothing. -/
theorem ensures_accounts : (condition : Condition) → (slot : Nat) →
    (convert condition).Ensures slot fun result literals _ =>
      Accounts condition slot result literals
  -- By induction on the condition; a connective accounts for what its members account for.
  | .leaf field comparison value, slot => ensures_leaf_accounts field comparison value slot
  | .all conditions, slot => .bind (ensures_allAccount conditions slot) fun parts literals _ all =>
    .pure (by simpa using all.all)
  | .any conditions, slot => .bind (ensures_allAccount conditions slot) fun parts literals _ all =>
    .pure (by simpa using all.any)
  | .not condition, slot => .bind (ensures_accounts condition slot) fun operand literals _ one =>
    .pure (by simpa using one.not)
termination_by structural condition => condition

/-- Conditions keep their literals but for those of an `or` that constrains nothing. -/
theorem ensures_allAccount : (conditions : List Condition) → (slot : Nat) →
    (convertAll conditions).Ensures slot fun parts literals _ =>
      AllAccount conditions slot parts literals
  -- By induction on the conditions, each from the slot behind the literals of the former.
  | [], slot => .pure ⟨rfl, rfl, rfl, rfl, fun _ => Iff.rfl⟩
  | condition :: rest, slot =>
    .bind (ensures_accounts condition slot) fun part literals _ first =>
      .bind (ensures_allAccount rest _) fun parts literals' _ later =>
        .pure (by simpa using first.cons later)
termination_by structural conditions => conditions

end

/-- The literals of conditions in two rows are those of both. -/
theorem allKeptLiterals_append (first second : List Condition) :
    allKeptLiterals (first ++ second) = allKeptLiterals first ++ allKeptLiterals second := by
  induction first with
  | nil => rfl
  | cons condition rest ih =>
    rw [List.cons_append, allKeptLiterals, allKeptLiterals, ih, List.append_assoc]

/-- The clauses about types and drafts have no placeholders. -/
theorem slots_clauses (settings : Settings) (query : Query) :
    (typeClause query ++ draftClause settings query).flatMap Expression.slots = [] := by
  unfold typeClause draftClause
  split <;> split <;> rfl

/-- The filter of a query keeps the literals of its conditions, those of global ones behind them. -/
theorem ensures_filterParts_kept {settings : Settings} {nodes : List Value}
    {everywhere : List Condition}
    (structured : settings.globalFilter = .conditions nodes everywhere) (query : Query)
    (own : List Condition) :
    (filterParts settings query own).Ensures 0 fun filter literals _ =>
      literals.length = (allKeptLiterals (own ++ everywhere)).length ∧
        ∀ used, used ∈ filter.flatMap Expression.slots ↔
          used ∈ keptSlots 0 (allKeptLiterals (own ++ everywhere)) := by
  have clause : globalClause settings = convertAll everywhere := by
    unfold globalClause
    rw [structured]
  rw [allKeptLiterals_append]
  -- The global conditions bind behind those of the query.
  refine .bind (ensures_allAccount own 0) fun parts literals _ here => ?_
  rw [clause]
  refine .bind (ensures_allAccount everywhere _) fun parts' literals' _ there => .pure ⟨?_, ?_⟩
  · rw [List.append_nil, List.length_append, List.length_append, here.count, there.count]
  · intro used
    rw [List.append_assoc, List.flatMap_append, slots_clauses, List.nil_append,
      List.flatMap_append, keptSlots_append, List.mem_append, List.mem_append, here.slots,
      there.slots, here.count]

end ContentQuery.Groq
