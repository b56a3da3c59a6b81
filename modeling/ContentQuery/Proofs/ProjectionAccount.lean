import ContentQuery.Proofs.ProjectionDepth
import ContentQuery.Proofs.Writing

/-! Every entry of a projection is accounted for by one field of its name or by one notice. -/

namespace ContentQuery.Projection

/-- Whether a value has one of the forms that give a field under an output name. -/
def isRecognised : Value → Bool
  | .bool _ | .text _ | .map _ | .projection _ => true
  | _ => false

/-- Whether a projection has no fields below it. -/
def isFlat : Projection → Bool
  | .included _ | .excluded _ | .alias _ _ | .computed _ _ _ | .resolved _ => true
  | .nested _ _ | .expanded _ _ | .stray _ => false

/-- Whether a notice says that the entry under a key gives no field. -/
def IsAboutEntry (key : Value) (notice : Notice) : Prop :=
  notice.reason = .invalidProjection ∧ notice.field = (outputName? key).elim .null .text ∧
    notice.operator = .null

mutual

/-- What the entries of a map come to in their order: fields, and notices in the order of a walk. -/
inductive Accounts : List (Value × Value) → List Projection → List Notice → Prop
  | nil : Accounts [] [] []
  | cons {key value : Value} {field : Option Projection} {own others : List Notice}
    {rest : List (Value × Value)} {fields : List Projection}
    (first : EntryAccounts key value field own) (later : Accounts rest fields others) :
    Accounts ((key, value) :: rest) (field.toList ++ fields) (own ++ others)

/-- What one entry comes to: one field and no notice about it, or one notice and no field. -/
inductive EntryAccounts : Value → Value → Option Projection → List Notice → Prop
  | kept {key value : Value} {name : String} {item : Projection} {below : List Notice}
    (output : outputName? key = some name) (recognised : isRecognised value = true)
    (gives : Gives name value item below) : EntryAccounts key value (some item) below
  | noted {key value : Value} {notice : Notice}
    (unread : outputName? key = none ∨ isRecognised value = false)
    (about : IsAboutEntry key notice) : EntryAccounts key value none [notice]

/-- The field that an entry gives has its name, and accounts for the entries one level down. -/
inductive Gives : String → Value → Projection → List Notice → Prop
  | flat {name : String} {value : Value} {item : Projection} (bare : outlineField value = .flat)
    (named : item.name = .text name) (low : item.isFlat = true) : Gives name value item []
  | nested {name : String} {entries : List (Value × Value)} {fields : List Projection}
    {below : List Notice} (inside : Accounts entries fields below) :
    Gives name (.map entries) (.nested (.text name) fields) below
  | expanded {name : String} {entries inner : List (Value × Value)} {fields : List Projection}
    {below : List Notice} (looked : Value.lookup? "projection" entries = some (.map inner))
    (inside : Accounts inner fields below) :
    Gives name (.map entries) (.expanded (.text name) fields) below

end

/--
What a reading leads to, whatever came before it: a result with notices that meet a condition where
nothing fails, a refusal of the nesting, or a refusal with one of the faults that may come of it.
-/
def LeadsTo {α : Type} (limit : DepthLimit) (faults : List Fault) (post : α → List Notice → Prop)
    (compile : Compile α) : Prop :=
  (∃ result notices, compile.Gives result notices ∧ faults = [] ∧ post result notices) ∨
  (∃ position, compile.Refuses (.tooDeep .projection limit position)) ∨
  (∃ fault ∈ faults, compile.Refuses fault)

namespace LeadsTo

variable {α β : Type} {limit : DepthLimit} {faults : List Fault} {post : α → List Notice → Prop}
  {compile : Compile α}

/-- A weaker condition is met as well. -/
theorem mono {weaker : α → List Notice → Prop} (leads : LeadsTo limit faults post compile)
    (implies : ∀ result notices, post result notices → weaker result notices) :
    LeadsTo limit faults weaker compile := by
  rcases leads with ⟨result, notices, gives, sound, met⟩ | refused
  · exact Or.inl ⟨result, notices, gives, sound, implies _ _ met⟩
  · exact Or.inr refused

/-- A result that is given at once does not fail. -/
theorem pure {result : α} (met : post result []) : LeadsTo limit [] post (pure result) :=
  Or.inl ⟨result, [], Compile.gives_pure result, rfl, met⟩

/-- What is written is given, or fails for what cannot be written. -/
theorem written {result : α} {notices : List Notice} {writable : Bool} {write : Unit → Compile α}
    (writes : (write ()).Gives result notices)
    (met : Outline.ofWritten writable = .flat → post result notices) :
    LeadsTo limit (Outline.ofWritten writable).faults post
      (Compile.requireWritten writable >>= write) := by
  cases writable with
  | true => exact Or.inl ⟨result, notices, writes, rfl, met rfl⟩
  | false => exact Or.inr (Or.inr ⟨.unwritable, List.mem_singleton_self _, fun _ => rfl⟩)

/-- What is written in a notice leads to that notice. -/
theorem noted {result : α} {writable : Bool} {reason : Reason} {message : String}
    {field operator : Value} (met : post result [⟨reason, .text message, field, operator⟩]) :
    LeadsTo limit (Outline.ofWritten writable).faults post (do
      Compile.requireWritten writable
      Compile.degrade reason message field operator
      return result) :=
  .written ((Compile.gives_degrade _ _ _ _).bind (Compile.gives_pure result)) fun _ => met

/-- A value of the wrong kind is refused for its kind. -/
theorem mistyped : LeadsTo limit [.mistyped] post (Compile.refuse .mistyped) :=
  Or.inr (Or.inr ⟨.mistyped, List.mem_singleton_self _, fun _ => rfl⟩)

/-- Two readings in a row leave the notices of both, and fail as either may. -/
theorem bind {faults' : List Fault} {final : β → List Notice → Prop} {next : α → Compile β}
    (first : LeadsTo limit faults post compile)
    (then_ : ∀ result notices, post result notices →
      LeadsTo limit faults' (fun result' notices' => final result' (notices ++ notices'))
        (next result)) :
    LeadsTo limit (faults ++ faults') final (compile >>= next) := by
  rcases first with ⟨result, notices, gives, rfl, met⟩ | ⟨position, refused⟩ |
      ⟨fault, inside, refused⟩
  -- Behind a result, the second reading decides; a refusal of the first is one of both.
  · rw [List.nil_append]
    rcases then_ result notices met with ⟨result', notices', gives', sound', met'⟩ |
        ⟨position, refused⟩ | ⟨fault, inside, refused⟩
    · exact Or.inl ⟨result', notices ++ notices', gives.bind gives', sound', met'⟩
    · exact Or.inr (Or.inl ⟨position, gives.refuses refused⟩)
    · exact Or.inr (Or.inr ⟨fault, inside, gives.refuses refused⟩)
  · exact Or.inr (Or.inl ⟨position, refused.bind⟩)
  · exact Or.inr (Or.inr ⟨fault, List.mem_append_left _ inside, refused.bind⟩)

/-- What is made of a result leaves no further notice. -/
theorem map {final : β → List Notice → Prop} (leads : LeadsTo limit faults post compile)
    (f : α → β) (met : ∀ result notices, post result notices → final (f result) notices) :
    LeadsTo limit faults final (do return f (← compile)) := by
  -- A function applied to the result adds neither a fault nor a notice.
  have both : LeadsTo limit (faults ++ []) final (do return f (← compile)) :=
    leads.bind fun result notices held => .pure (by
      rw [List.append_nil]
      exact met result notices held)
  rwa [List.append_nil] at both

/-- A check of the nesting leaves what follows as it is, or refuses the nesting. -/
theorem checked (ordered : limit ≠ .unordered) {depth : Nat} {position : Position}
    {next : Unit → Compile α} (then_ : LeadsTo limit faults post (next ())) :
    LeadsTo limit faults post (checkDepth limit depth position >>= next) := by
  -- A limit that depths compare with is exceeded or not.
  obtain ⟨exceeded, decided⟩ : ∃ exceeded, limit.exceeded? depth = some exceeded := by
    cases limit with
    | unordered => exact absurd rfl ordered
    | _ => exact ⟨_, rfl⟩
  cases exceeded with
  | false =>
    have passes : checkDepth limit depth position = Pure.pure () := by
      simp only [checkDepth, Nesting.checkDepth, decided]
      rfl
    rw [passes]
    exact then_
  | true =>
    refine Or.inr (Or.inl ⟨position, Compile.Refuses.bind fun context => ?_⟩)
    simp only [checkDepth, Nesting.checkDepth, decided]
    rfl

end LeadsTo

/-- What is found under the first of several names is part of what can be shown. -/
theorem canInspect_of_firstOf {names : List String} {entries : List (Value × Value)}
    {value : Value} (shown : Value.canInspectEntries entries = true)
    (found : firstOf names entries = some value) : value.canInspect = true := by
  obtain ⟨name, -, looked⟩ := List.exists_of_findSome?_eq_some found
  exact Value.canInspect_of_lookup? shown looked

namespace Outline

mutual

/-- What is read may fail for a value's kind or for what cannot be written, its nesting apart. -/
theorem eq_of_mem_faults : (field : Outline) → {fault : Fault} → fault ∈ field.faults →
    fault = .mistyped ∨ fault = .unwritable
  -- By induction on the outline, whose faults are of two kinds.
  | .above fields, _, inside => eq_of_mem_allFaults fields inside
  | .misplaced, _, inside => Or.inl (List.mem_singleton.mp inside)
  | .unwritable, _, inside => Or.inr (List.mem_singleton.mp inside)
  | .flat, _, inside | .built _, _, inside => absurd inside List.not_mem_nil
termination_by structural field => field

/-- So it is under several output names. -/
theorem eq_of_mem_allFaults : (fields : List Outline) → {fault : Fault} →
    fault ∈ allFaults fields → fault = .mistyped ∨ fault = .unwritable
  -- By induction on the fields.
  | [], _, inside => absurd inside List.not_mem_nil
  | field :: rest, _, inside => by
    rcases List.mem_append.mp inside with here | later
    · exact eq_of_mem_faults field here
    · exact eq_of_mem_allFaults rest later
termination_by structural fields => fields

end

end Outline

/-- What a projection comes to is an account of its entries, unless it counts as false. -/
def AccountsFor (value : Value) (fields : List Projection) (notices : List Notice) : Prop :=
  value.isTruthy = true → ∃ entries, value = .map entries ∧ Accounts entries fields notices

section Reading

variable {limit : DepthLimit}

/-- A value of no form that is known comes to a notice under its name. -/
theorem leadsTo_unrecognised {key value : Value} {name : String}
    (output : outputName? key = some name) (unread : isRecognised value = false) :
    LeadsTo limit (Outline.ofWritten value.canInspect).faults (EntryAccounts key value)
      (unrecognised name value) :=
  .noted (.noted (Or.inr unread) ⟨rfl, by rw [output]; rfl, rfl⟩)

/-- Something in the place of a map comes to nothing where it counts as false. -/
theorem leadsTo_misplaced (ordered : limit ≠ .unordered) (depth : Nat) (position : Position)
    (value : Value) :
    LeadsTo limit (Outline.allFaults (if value.isTruthy then [.misplaced] else []))
      (AccountsFor value)
      (if !value.isTruthy then pure [] else do
        checkDepth limit depth position
        Compile.refuse .mistyped) := by
  unfold AccountsFor
  cases value.isTruthy with
  | false => exact .pure fun counts => absurd counts Bool.false_ne_true
  | true => exact .checked ordered .mistyped

-- By induction on the value, in step with its outline: a map is read entry by entry, and only what
-- stands in the place of a map and is none is refused for its kind.
mutual

/-- Reading a projection leads to an account of it. -/
theorem leadsTo_read (ordered : limit ≠ .unordered) (depth : Nat) (position : Position) :
    (value : Value) → Outline.arePlain (outline value) = true →
      LeadsTo limit (Outline.allFaults (outline value)) (AccountsFor value)
        (read limit depth position value)
  -- Only a map is read into; an empty one is not even checked.
  | .map entries, plain => by
    have entriesLead := leadsTo_readEntries ordered depth position entries plain
    unfold read
    split
    · rename_i empty
      obtain rfl := List.isEmpty_iff.mp empty
      exact .pure nofun
    · refine .checked ordered ?_
      exact entriesLead.mono fun fields notices accounts => fun _ => ⟨entries, rfl, accounts⟩
  | .null, _ | .bool _, _ | .int _, _ | .float _, _ | .text _, _ | .bytes _, _ | .uuid _, _
  | .moment _, _ | .date _, _ | .time _, _ | .list _, _ | .tuple _, _ | .set _ _, _
  | .operator _, _ | .member _, _ | .foreign, _ | .node _ _ _ _ _ _, _ | .sortKey _, _
  | .projection _, _ => by
    unfold read outline
    exact leadsTo_misplaced ordered depth position _
termination_by structural value => value

/-- Reading the entries of a map leads to an account of them. -/
theorem leadsTo_readEntries (ordered : limit ≠ .unordered) (depth : Nat) (position : Position) :
    (entries : List (Value × Value)) → Outline.arePlain (outlineEntries entries) = true →
      LeadsTo limit (Outline.allFaults (outlineEntries entries)) (Accounts entries)
        (readEntries limit depth position entries)
  | [], _ => .pure .nil
  | (key, value) :: rest, plain => by
    rw [outlineEntries] at plain
    obtain ⟨here, later⟩ := Bool.and_eq_true_iff.mp plain
    have fieldLeads (name : String) := leadsTo_readField ordered depth position name value
    have restLeads := leadsTo_readEntries ordered depth position rest later
    rw [readEntries_cons, outlineEntries]
    have first : LeadsTo limit
        (if (outputName? key).isSome then outlineField value
          else .ofWritten key.canInspect).faults
        (EntryAccounts key value) ((outputName? key).elim (invalidKey key) fun name =>
          readField limit depth position name value) := by
      cases output : outputName? key with
      | none => exact .noted (.noted (Or.inl output) ⟨rfl, by rw [output]; rfl, rfl⟩)
      | some name =>
        rw [output] at here
        exact fieldLeads name key output here
    -- The entry comes to a field or to a notice, and the others are read behind it.
    exact first.bind fun field own alone =>
      restLeads.map _ fun fields others accounts => .cons alone accounts
termination_by structural entries => entries

/-- Reading what stands under an output name leads to one field, or to one notice. -/
theorem leadsTo_readField (ordered : limit ≠ .unordered) (depth : Nat) (position : Position)
    (name : String) : (value : Value) → (key : Value) → outputName? key = some name →
      (outlineField value).isPlain = true →
      LeadsTo limit (outlineField value).faults (EntryAccounts key value)
        (readField limit depth position name value)
  | .projection _, _, _, plain => absurd plain Bool.false_ne_true
  | .bool true, _, output, _ | .bool false, _, output, _ | .text _, _, output, _ =>
    .pure (.kept output rfl (.flat rfl rfl rfl))
  | .map entries, key, output, plain => by
    have entriesLead := leadsTo_readEntries ordered (depth + 1) (position.down (.name name)) entries
    have expansionLeads :=
      leadsTo_readExpansion ordered (depth + 1) (position.down (.name name)) entries
    -- Where the outline has nothing below the name, one field without fields of its own is given.
    have flat (item : Projection) (bare : outlineField (.map entries) = .flat)
        (named : item.name = .text name) (low : item.isFlat = true) :
        LeadsTo limit (outlineField (.map entries)).faults (EntryAccounts key (.map entries))
          (pure (some item)) := by
      rw [bare]
      exact .pure (.kept output rfl (.flat bare named low))
    unfold readField
    cases function : firstOf functionKeys entries with
    | some called =>
      have written : outlineField (.map entries) = .ofWritten called.canDisplay := by
        simp [outlineField, function]
      rw [written]
      exact .written (Compile.gives_pure _) fun bare =>
        .kept output rfl (.flat (written.trans bare) rfl rfl)
    | none =>
      cases expansion : firstOf expansionKeys entries with
      | some wanted =>
        dsimp only
        cases wants : wanted.isTruthy with
        | false => exact flat _ (by simp [outlineField, function, expansion, wants]) rfl rfl
        | true =>
          cases names : (Value.lookup? "projection" entries).any Value.isTruthy with
          | false => exact flat _ (by simp [outlineField, function, expansion, names]) rfl rfl
          | true =>
            have below : outlineField (.map entries) = .above (outlineExpansion entries) := by
              simp [outlineField, function, expansion, wants, names]
            rw [below] at plain ⊢
            -- A projection that counts as true is a map, of which all entries are accounted for.
            refine (expansionLeads plain).map _ fun fields notices accounts => ?_
            cases looked : Value.lookup? "projection" entries with
            | none => simp [looked] at names
            | some value =>
              have truthy : value.isTruthy = true := by simpa [looked] using names
              obtain ⟨inner, rfl, inside⟩ := accounts value looked truthy
              exact .kept output rfl (.expanded looked inside)
      | none =>
        dsimp only
        cases empty : entries.isEmpty with
        | true => exact flat _ (by simp [outlineField, function, expansion, empty]) rfl rfl
        | false =>
          have below : outlineField (.map entries) = .above (outlineEntries entries) := by
            simp [outlineField, function, expansion, empty]
          rw [below] at plain ⊢
          refine .checked ordered ?_
          exact (entriesLead plain).map _ fun fields notices accounts =>
            .kept output rfl (.nested accounts)
  | .null, _, output, _ | .int _, _, output, _ | .float _, _, output, _ | .bytes _, _, output, _
  | .uuid _, _, output, _ | .moment _, _, output, _ | .date _, _, output, _ | .time _, _, output, _
  | .list _, _, output, _ | .tuple _, _, output, _ | .set _ _, _, output, _
  | .operator _, _, output, _ | .member _, _, output, _ | .foreign, _, output, _
  | .node _ _ _ _ _ _, _, output, _ | .sortKey _, _, output, _ =>
    leadsTo_unrecognised output rfl
termination_by structural value => value

/-- Reading the projection of an expansion leads to an account of that projection. -/
theorem leadsTo_readExpansion (ordered : limit ≠ .unordered) (depth : Nat) (position : Position) :
    (entries : List (Value × Value)) → Outline.arePlain (outlineExpansion entries) = true →
      LeadsTo limit (Outline.allFaults (outlineExpansion entries))
        (fun fields notices => ∀ value, Value.lookup? "projection" entries = some value →
          AccountsFor value fields notices)
        (readExpansion limit depth position entries)
  -- By induction on the entries: the first that holds a projection is the one read, and the one
  -- outlined.
  | [], _ => .pure nofun
  | (key, value) :: rest, plain => by
    have valueLeads := leadsTo_read ordered depth position value
    have restLeads := leadsTo_readExpansion ordered depth position rest
    rw [outlineExpansion_cons] at plain
    rw [readExpansion_cons, outlineExpansion_cons]
    simp only [Value.lookup?_cons]
    split
    · rename_i named
      rw [if_pos named] at plain
      exact (valueLeads plain).mono fun _ _ accounts _ same => Option.some.inj same ▸ accounts
    · rename_i other
      rw [if_neg other] at plain
      exact restLeads plain
termination_by structural entries => entries

end

end Reading

-- Only what is shown by a notice or called as a function is written, and each is part of the value.
mutual

/-- Reading a value that can be shown does not fail for what cannot be written. -/
theorem not_unwritable_outline : (value : Value) → value.canInspect = true →
    .unwritable ∉ Outline.allFaults (outline value)
  -- Only the entries of a map may be shown in a notice.
  | .map entries, shown => not_unwritable_outlineEntries entries shown
  | .null, _ | .bool _, _ | .int _, _ | .float _, _ | .text _, _ | .bytes _, _ | .uuid _, _
  | .moment _, _ | .date _, _ | .time _, _ | .list _, _ | .tuple _, _ | .set _ _, _
  | .operator _, _ | .member _, _ | .foreign, _ | .node _ _ _ _ _ _, _ | .sortKey _, _
  | .projection _, _ => by
    unfold outline
    split <;> simp [Outline.allFaults, Outline.faults]
termination_by structural value => value

/-- Neither does reading entries that can be shown. -/
theorem not_unwritable_outlineEntries : (entries : List (Value × Value)) →
    Value.canInspectEntries entries = true →
      .unwritable ∉ Outline.allFaults (outlineEntries entries)
  -- By induction on the entries, whose keys and values can all be shown.
  | [], _ => List.not_mem_nil
  | (key, value) :: rest, shown => by
    obtain ⟨here, later⟩ := Bool.and_eq_true_iff.mp shown
    obtain ⟨keyShown, valueShown⟩ := Bool.and_eq_true_iff.mp here
    have field := not_unwritable_outlineField value valueShown
    have others := not_unwritable_outlineEntries rest later
    rw [outlineEntries, Outline.allFaults, List.mem_append, not_or]
    refine ⟨?_, others⟩
    split
    · exact field
    · rw [keyShown]
      exact List.not_mem_nil
termination_by structural entries => entries

/-- Nor does reading what can be shown under an output name. -/
theorem not_unwritable_outlineField : (value : Value) → value.canInspect = true →
    .unwritable ∉ (outlineField value).faults
  -- What is shown of a descriptor is its function, or the whole where it has no shape; both can be
  -- shown.
  | .map entries, shown => by
    have fields := not_unwritable_outlineEntries entries shown
    have expansion := not_unwritable_outlineExpansion entries shown
    unfold outlineField
    split
    · rename_i called found
      rw [Value.canDisplay_of_canInspect (canInspect_of_firstOf shown found)]
      exact List.not_mem_nil
    · split
      · split
        · exact expansion
        · exact List.not_mem_nil
      · split
        · exact List.not_mem_nil
        · exact fields
  | .projection _, _ => List.not_mem_nil
  | .null, shown | .bool _, shown | .int _, shown | .float _, shown | .text _, shown
  | .bytes _, shown | .uuid _, shown | .moment _, shown | .date _, shown | .time _, shown
  | .list _, shown | .tuple _, shown | .set _ _, shown | .operator _, shown | .member _, shown
  | .foreign, shown | .node _ _ _ _ _ _, shown | .sortKey _, shown => by
    unfold outlineField
    rw [shown]
    exact List.not_mem_nil
termination_by structural value => value

/-- Nor does reading the projection of an expansion that can be shown. -/
theorem not_unwritable_outlineExpansion : (entries : List (Value × Value)) →
    Value.canInspectEntries entries = true →
      .unwritable ∉ Outline.allFaults (outlineExpansion entries)
  -- By induction on the entries, of which one at most is read.
  | [], _ => List.not_mem_nil
  | (key, value) :: rest, shown => by
    obtain ⟨here, later⟩ := Bool.and_eq_true_iff.mp shown
    have inner := not_unwritable_outline value (Bool.and_eq_true_iff.mp here).2
    have others := not_unwritable_outlineExpansion rest later
    rw [outlineExpansion_cons]
    split
    · exact inner
    · exact others
termination_by structural entries => entries

end

/--
Reading a map of plain values gives fields that account for every entry on every level, or refuses
the nesting. Only where something stands in the place of a map and is none, it gives nothing, and
may refuse that value for its kind; and only where an integer in the map has too many digits to be
written, it may fail for that.
-/
theorem readTop_accounts {limit : DepthLimit} {entries : List (Value × Value)}
    (ordered : limit ≠ .unordered)
    (plain : Outline.arePlain (outlineEntries entries) = true) (context : Context) :
    (∃ fields notices,
      readTop limit (.map entries) context = .ok (fields, context.extend [] notices) ∧
        Outline.allFaults (outlineEntries entries) = [] ∧ Accounts entries fields notices) ∨
    (∃ position, readTop limit (.map entries) context =
      .error (.tooDeep .projection limit position)) ∨
    (readTop limit (.map entries) context = .error .mistyped ∧
      .mistyped ∈ Outline.allFaults (outlineEntries entries)) ∨
    (readTop limit (.map entries) context = .error .unwritable ∧
      .unwritable ∈ Outline.allFaults (outlineEntries entries) ∧
        (Value.map entries).canInspect = false) := by
  have leads : LeadsTo limit (Outline.allFaults (outlineEntries entries)) (Accounts entries)
      (readTop limit (.map entries)) := by
    unfold readTop read
    split
    · rename_i empty
      obtain rfl := List.isEmpty_iff.mp empty
      exact .pure .nil
    · exact .checked ordered (leadsTo_readEntries ordered 1 _ entries plain)
  rcases leads with ⟨fields, notices, gives, sound, accounts⟩ | ⟨position, refused⟩ |
      ⟨fault, inside, refused⟩
  · exact Or.inl ⟨fields, notices, gives context, sound, accounts⟩
  · exact Or.inr (Or.inl ⟨position, refused context⟩)
  -- An outline has two kinds of faults, and one of them needs an integer that cannot be written.
  · rcases Outline.eq_of_mem_allFaults _ inside with rfl | rfl
    · exact Or.inr (Or.inr (Or.inl ⟨refused context, inside⟩))
    · refine Or.inr (Or.inr (Or.inr ⟨refused context, inside, Bool.eq_false_iff.mpr fun shown => ?_⟩))
      exact not_unwritable_outlineEntries entries shown inside

/-- Entries of which some give fields, on two levels, and some do not. -/
def mixedEntries : List (Value × Value) :=
  [(.text "title", .bool true), (.text "rank", .int 3),
    (.text "author", .map [(.text "expand", .bool true),
      (.text "projection", .map [(.text "name", .bool true), (.text "", .bool false)])])]

/-- Two fields and two notices account for these entries, the ones inside the expansion included. -/
theorem readTop_accounts_mixed :
    Outline.arePlain (outlineEntries mixedEntries) = true ∧
      ∃ notices, readTop (.levels 2) (.map mixedEntries) .empty =
        .ok ([.included (.text "title"), .expanded (.text "author") [.included (.text "name")]],
          Context.empty.extend [] notices) ∧ notices.length = 2 ∧
        Accounts mixedEntries [.included (.text "title"),
          .expanded (.text "author") [.included (.text "name")]] notices := by
  -- The reading is run once; of the four outcomes only the first fits it.
  have ordered : DepthLimit.levels 2 ≠ .unordered := nofun
  have plain : Outline.arePlain (outlineEntries mixedEntries) = true := by decide
  refine ⟨plain, ?_⟩
  obtain ⟨noticed, read_⟩ : ∃ noticed, readTop (.levels 2) (.map mixedEntries) .empty =
      .ok ([.included (.text "title"), .expanded (.text "author") [.included (.text "name")]],
        ⟨[], noticed⟩) ∧ noticed.length = 2 := ⟨_, rfl, rfl⟩
  rcases readTop_accounts ordered plain .empty with ⟨fields, notices, gave, -, accounts⟩ |
      ⟨position, refused⟩ | ⟨refused, -⟩ | ⟨refused, -⟩
  · obtain ⟨rfl, same⟩ := Prod.mk.inj (Except.ok.inj (gave.symm.trans read_.1))
    obtain rfl : notices = noticed := congrArg Context.notices same
    exact ⟨notices, gave, read_.2, accounts⟩
  · exact nomatch refused.symm.trans read_.1
  · exact nomatch refused.symm.trans read_.1
  · exact nomatch refused.symm.trans read_.1

/-- A text in the place of the projection of an expansion refuses a reading for its kind. -/
theorem readTop_misplaced :
    readTop (.levels 10) (.map [(.text "author", .map [(.text "expand", .bool true),
      (.text "projection", .text "name")])]) .empty = .error .mistyped :=
  rfl

end ContentQuery.Projection
