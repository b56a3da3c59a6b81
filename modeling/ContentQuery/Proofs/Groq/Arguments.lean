import ContentQuery.Proofs.Groq.Placeholders
import ContentQuery.Proofs.Groq.Statement

/-! Every placeholder of a projection is bound to the argument that it was written for. -/

namespace ContentQuery

namespace Compile

variable {α β : Type}

/--
Whatever a compilation gives meets a condition on the literals that are bound in the end.

It takes no literal away that was bound before, and later compilations may bind further ones.
-/
def Settles (compile : Compile α) (post : List Value → α → Prop) : Prop :=
  ∀ context result after, compile context = .ok (result, after) →
    context.bindings <+: after.bindings ∧
      ∀ bindings, after.bindings <+: bindings → post bindings result

/-- A weaker condition is met as well. -/
theorem Settles.mono {compile : Compile α} {post weaker : List Value → α → Prop}
    (settles : compile.Settles post)
    (implies : ∀ bindings result, post bindings result → weaker bindings result) :
    compile.Settles weaker := by
  intro context result after ran
  obtain ⟨grown, met⟩ := settles context result after ran
  exact ⟨grown, fun bindings later => implies bindings result (met bindings later)⟩

/-- What a compilation gives that binds no literal meets what it meets whatever is bound. -/
theorem Ensures.settles {compile : Compile α} {post : List Value → α → Prop}
    (ensures : compile.Ensures fun result _ => ∀ bindings, post bindings result) :
    compile.Settles post := by
  intro context result after ran
  obtain ⟨notices, rfl, -, met⟩ := ensures.of_run ran
  refine ⟨?_, fun bindings _ => met bindings⟩
  simp [Context.extend]

/-- A result that is given with a notice meets what it meets with any. -/
theorem Ensures.noted {reason : Reason} {message : String} {field operator : Value} {result : α}
    {post : α → List Notice → Prop} (met : ∀ notices, post result notices) :
    Ensures (do Compile.degrade reason message field operator; return result) post := by
  have noted : (Compile.degrade reason message field operator).Ensures fun _ _ => True :=
    .degrade trivial
  exact .bind noted fun _ _ _ => .pure (met _)

/-- A result that is given at once meets what it meets whatever is bound. -/
theorem Settles.pure {result : α} {post : List Value → α → Prop}
    (met : ∀ bindings, post bindings result) : Settles (pure result) post :=
  Ensures.settles (.pure met)

/-- A refusal meets every condition. -/
theorem Settles.refuse {fault : Fault} {post : List Value → α → Prop} :
    (Compile.refuse fault : Compile α).Settles post :=
  Ensures.settles .refuse

/-- Asking for what can be written settles nothing by itself. -/
theorem Settles.written {writable : Bool} {next : Compile α} {post : List Value → α → Prop}
    (settles : next.Settles post) :
    Settles (do Compile.requireWritten writable; next) post := by
  intro context result after ran
  exact settles context result after (Compile.ok_of_requireWritten ran).2

/-- What the second of two compilations binds leaves alone what the first has settled. -/
theorem Settles.bind {compile : Compile α} {next : α → Compile β}
    {between : List Value → α → Prop} {post : List Value → β → Prop}
    (first : compile.Settles between)
    (then_ : ∀ result, (next result).Settles fun bindings given =>
      between bindings result → post bindings given) :
    (compile >>= next).Settles post := by
  intro context given after ran
  obtain ⟨result, middle, ran, ran'⟩ := Compile.ok_of_bind ran
  -- What is bound in the end extends what was bound in the middle.
  obtain ⟨grown, met⟩ := first context result middle ran
  obtain ⟨grown', met'⟩ := then_ result middle given after ran'
  refine ⟨grown.trans grown', fun bindings later => met' bindings later ?_⟩
  exact met bindings (grown'.trans later)

/-- Literals that were bound stay bound to their slots. -/
theorem boundFrom_of_later {before literals bindings : List Value}
    (later : before ++ literals <+: bindings) :
    Groq.BoundFrom bindings before.length literals := by
  obtain ⟨more, rfl⟩ := later
  intro index inside
  -- The literals stand behind those that were bound before them.
  rw [List.append_assoc, List.getElem?_append_right (by omega), Nat.add_sub_cancel_left,
    List.getElem?_append_left inside]

/-- A conversion settles what it ensures about the literals that it binds. -/
theorem Settles.lift {convert : Convert α} {post : List Value → α → Prop}
    (ensures : ∀ slot, convert.Ensures slot fun result literals _ =>
      ∀ bindings, Groq.BoundFrom bindings slot literals → post bindings result) :
    convert.lift.Settles post := by
  -- What is bound below is bound at its slots from then on, whatever is bound later.
  intro context result after ran
  obtain ⟨given, literals, notices, gives, met⟩ := ensures context.bindings.length
  have same := (congrArg Except.ok (gives context rfl)).symm.trans ran
  cases same
  exact ⟨List.prefix_append _ _, fun bindings later => met bindings (boundFrom_of_later later)⟩

end Compile

namespace Groq

open Compile (Settles)

/-- The function and the forms of the arguments of a computed attribute that can be written. -/
def callOf? (function : Value) (arguments : List Value) : Option (String × List Value) :=
  match function with
  | .text called =>
    if isFunctionName called then (arguments.mapM Value.toJson).toOption.map (called, ·) else none
  | _ => none

mutual

/--
Whether a result is what a projection is converted to, each computed field with its own arguments.

The forms of the arguments are bound to the slots that the attribute names.
-/
def Delivers (bindings : List Value) : Projection → Option Attribute → Prop
  | .included name, result => result = none ∨ ∃ known, name = .text known ∧
      isName known = true ∧ result = some (.plain known)
  | .alias name path, result => result = none ∨ ∃ words, path = .text words ∧
      pathGrammar.isPath words = true ∧ result = some (.path name words)
  | .computed name function arguments, result =>
    match callOf? function arguments with
    | none => result = none
    | some (called, forms) => ∃ slot, BoundFrom bindings slot forms ∧
        result = some (.call name called (List.range' slot forms.length))
  | .nested name fields, result => result = none ∨ ∃ known attributes, name = .text known ∧
      isName known = true ∧ DeliverAll bindings fields attributes ∧
        result = some (if attributes.isEmpty then .plain known else .nested known attributes)
  | .resolved name, result => result = none ∨ ∃ known, name = .text known ∧
      isName known = true ∧ (result = some (.plain known) ∨ result = some (.resolved known))
  | .expanded name fields, result => result = none ∨ ∃ known, name = .text known ∧
      isName known = true ∧ (result = some (.plain known) ∨
        ∃ attributes, DeliverAll bindings fields attributes ∧
          result = some (.expanded known attributes))
  | .excluded _, result | .stray _, result => result = none
termination_by structural item => item

/-- Whether attributes are what projections are converted to, in order. -/
def DeliverAll (bindings : List Value) : List Projection → List Attribute → Prop
  | [], attributes => attributes = []
  | item :: rest, attributes => ∃ first others, Delivers bindings item first ∧
      DeliverAll bindings rest others ∧ attributes = first.toList ++ others
termination_by structural items => items

end

/-- An attribute that is dropped leaves nothing. -/
theorem ensures_dropAttribute (reason : Reason) (message : String) (name : Value) :
    (dropAttribute reason message name).Ensures fun result _ => result = none :=
  .noted fun _ => rfl

/-- The name of an attribute is one, where there is one. -/
theorem settles_nameOf? (name : Value) :
    (nameOf? name).Settles fun _ result =>
      ∀ known ∈ result, name = .text known ∧ isName known = true := by
  -- A name is given back only when it is one.
  refine Compile.Ensures.settles ?_
  unfold nameOf?
  split
  · split
    · rename_i valid
      refine .pure fun _ known there => ?_
      cases there
      exact ⟨rfl, valid⟩
    · exact .noted fun _ _ known there => absurd there (Option.not_mem_none known)
  · exact .refuse

/-- A reference that is left unresolved is delivered as it is. -/
theorem settles_leaveUnresolved (limit : Nat) (name : String) :
    (leaveUnresolved limit name).Settles fun _ result => result = some (.plain name) :=
  Compile.Ensures.settles (.noted fun _ _ => rfl)

/-- An alias is delivered under its name, or dropped. -/
theorem settles_convertAlias (name path : Value) :
    (convertAlias name path).Settles fun bindings => Delivers bindings (.alias name path) := by
  -- An alias is kept with a path, and is dropped with anything else.
  have dropped : (convertAlias.drop name path).Settles fun bindings =>
      Delivers bindings (.alias name path) :=
    .written (Compile.Ensures.settles
      ((ensures_dropAttribute _ _ _).mono fun _ _ none_ _ => .inl none_))
  unfold convertAlias
  split
  · split
    · rename_i words valid
      exact .pure fun _ => .inr ⟨words, rfl, valid, rfl⟩
    · exact dropped
  · exact dropped

/-- Arguments that all have a form are bound to slots in a row. -/
theorem settles_bindArguments {arguments forms : List Value}
    (made : arguments.mapM Value.toJson = .ok forms) :
    (bindArguments arguments).run.lift.Settles fun bindings result =>
      ∃ slot, BoundFrom bindings slot forms ∧ result = .ok (List.range' slot forms.length) := by
  -- The arguments are bound to the next slots, one for each.
  refine .lift fun slot => ?_
  have gives := gives_bindArguments arguments slot
  rw [made, ← length_of_mapM made] at gives
  exact ⟨_, _, _, gives, fun bindings bound => ⟨slot, bound, rfl⟩⟩

/-- Arguments of which one has no form are not bound. -/
theorem settles_bindArguments_fault {arguments : List Value} {fault : FormatFault}
    (broken : arguments.mapM Value.toJson = .error fault) :
    (bindArguments arguments).run.lift.Settles fun _ result => result = .error fault := by
  -- One argument without a form is enough, and nothing is bound.
  refine .lift fun slot => ?_
  have gives := gives_bindArguments arguments slot
  rw [broken] at gives
  exact ⟨_, _, _, gives, fun _ _ => rfl⟩

/-- A computed attribute is delivered with its arguments, or dropped. -/
theorem settles_convertComputed (name function : Value) (arguments : List Value) :
    (convertComputed name function arguments).Settles fun bindings =>
      Delivers bindings (.computed name function arguments) := by
  have dropped (reason : Reason) (message : String) (none_ : callOf? function arguments = none) :
      (dropAttribute reason message name).Settles fun bindings =>
        Delivers bindings (.computed name function arguments) := by
    refine Compile.Ensures.settles ((ensures_dropAttribute _ _ _).mono ?_)
    intro result _ nothing bindings
    unfold Delivers
    rw [none_]
    exact nothing
  unfold convertComputed
  split
  · rename_i called
    split
    · rename_i valid
      -- The arguments are bound if all of them have a form, and the attribute is dropped if not.
      cases made : arguments.mapM Value.toJson with
      | ok forms =>
        have call : callOf? (.text called) arguments = some (called, forms) := by
          simp [callOf?, valid, made, Except.toOption]
        refine .bind (settles_bindArguments made) fun result => ?_
        split
        · refine .pure ?_
          rintro bindings ⟨slot, bound, same⟩
          cases same
          unfold Delivers
          rw [call]
          exact ⟨slot, bound, rfl⟩
        -- Arguments that were all bound leave nothing to be dropped for.
        · refine .written (Compile.Ensures.settles ((ensures_dropAttribute _ _ _).mono ?_))
          rintro _ _ _ _ ⟨_, _, same⟩
          cases same
      | error fault =>
        have none_ : callOf? (.text called) arguments = none := by
          simp [callOf?, valid, made, Except.toOption]
        refine .bind (settles_bindArguments_fault made) fun result => ?_
        split
        · refine .pure fun _ same => ?_
          cases same
        · exact .written ((dropped _ _ none_).mono fun _ _ delivers _ => delivers)
    · rename_i invalid
      exact dropped _ _ (by simp [callOf?, invalid])
  · exact .refuse

variable (limit : Nat)

-- By induction on the projections: what is converted later binds behind what was bound before.
mutual

/-- A projection is converted to what it delivers. -/
theorem settles_convertField : (item : Projection) → (depth : Nat) →
    (convertField limit depth item).Settles fun bindings => Delivers bindings item
  | .excluded name, depth =>
    Compile.Ensures.settles ((ensures_dropAttribute _ _ _).mono fun _ _ none_ _ => none_)
  | .alias name path, depth => settles_convertAlias name path
  | .computed name function arguments, depth => settles_convertComputed name function arguments
  | .included name, depth => by
    unfold convertField
    refine .bind (settles_nameOf? name) fun result => .pure fun bindings named => ?_
    cases result with
    | none => exact .inl rfl
    | some known =>
      obtain ⟨same, valid⟩ := named known rfl
      exact .inr ⟨known, same, valid, rfl⟩
  | .nested name fields, depth => by
    have inside := settles_convertFields fields depth
    unfold convertField
    refine .bind (settles_nameOf? name) fun result => ?_
    split
    · exact .pure fun _ _ => .inl rfl
    · rename_i known
      refine .bind inside fun attributes => ?_
      -- A field of which nothing is left is delivered as a whole.
      cases attributes with
      | nil =>
        refine .pure fun bindings delivers named => ?_
        obtain ⟨same, valid⟩ := named known rfl
        exact .inr ⟨known, [], same, valid, delivers, rfl⟩
      | cons first others =>
        refine .pure fun bindings delivers named => ?_
        obtain ⟨same, valid⟩ := named known rfl
        exact .inr ⟨known, first :: others, same, valid, delivers, rfl⟩
  | .resolved name, depth => by
    unfold convertField
    refine .bind (settles_nameOf? name) fun result => ?_
    split
    · exact .pure fun _ _ => .inl rfl
    · rename_i known
      split
      · refine (settles_leaveUnresolved limit known).mono fun bindings result plain named => ?_
        obtain ⟨same, valid⟩ := named known rfl
        exact .inr ⟨known, same, valid, .inl plain⟩
      · refine .pure fun bindings named => ?_
        obtain ⟨same, valid⟩ := named known rfl
        exact .inr ⟨known, same, valid, .inr rfl⟩
  | .expanded name fields, depth => by
    have inside := settles_convertFields fields (depth + 1)
    unfold convertField
    refine .bind (settles_nameOf? name) fun result => ?_
    split
    · exact .pure fun _ _ => .inl rfl
    · rename_i known
      split
      · refine (settles_leaveUnresolved limit known).mono fun bindings result plain named => ?_
        obtain ⟨same, valid⟩ := named known rfl
        exact .inr ⟨known, same, valid, .inl plain⟩
      · refine .bind inside fun attributes => .pure fun bindings delivers named => ?_
        obtain ⟨same, valid⟩ := named known rfl
        exact .inr ⟨known, same, valid, .inr ⟨attributes, delivers, rfl⟩⟩
  | .stray _, depth => .refuse
termination_by structural item => item

/-- Projections are converted to what they deliver. -/
theorem settles_convertFields : (items : List Projection) → (depth : Nat) →
    (convertFields limit depth items).Settles fun bindings => DeliverAll bindings items
  | [], depth => .pure fun _ => rfl
  | item :: rest, depth => by
    have here := settles_convertField item depth
    have later := settles_convertFields rest depth
    -- The check of a key binds nothing.
    have passed : (requireKey item.name).Settles fun _ _ => True :=
      Compile.Ensures.settles ((blind_requireKey _).mono fun _ _ _ _ => trivial)
    unfold convertFields
    refine .bind passed fun _ => .bind here fun first => .bind later fun others => ?_
    exact .pure fun _ delivers delivered _ => ⟨first, others, delivered, delivers, rfl⟩
termination_by structural items => items

end

/-- Whether an attribute is well-formed and names only slots that something is bound to. -/
def Attribute.IsBound (bindings : List Value) (head : Attribute) : Prop :=
  head.WellFormed ∧ ∀ slot ∈ head.slots, slot < bindings.length

/-- What is called is the name of a function. -/
theorem isFunctionName_of_callOf? {function : Value} {arguments forms : List Value}
    {called : String} (call : callOf? function arguments = some (called, forms)) :
    isFunctionName called = true := by
  -- The name is looked at before the arguments are.
  unfold callOf? at call
  split at call
  · split at call
    · rename_i valid
      obtain ⟨_, -, same⟩ := Option.map_eq_some_iff.mp call
      cases same
      exact valid
    · cases call
  · cases call

section Bound

variable {bindings : List Value} {name : String} {attributes : List Attribute}

/-- A name names no slot. -/
theorem isBound_plain (valid : isName name = true) : (Attribute.plain name).IsBound bindings :=
  ⟨valid, nofun⟩

/-- Attributes inside a field are well-formed, and bound, when each of them is. -/
theorem allBound_iff : (∀ head ∈ attributes, head.IsBound bindings) ↔
    Attribute.AllWellFormed attributes ∧
      ∀ slot ∈ Attribute.allSlots attributes, slot < bindings.length := by
  -- An attribute is bound when it is well-formed and names slots that are bound.
  rw [Attribute.allWellFormed_iff, Attribute.allSlots_eq_flatMap]
  constructor
  · intro each
    refine ⟨fun head member => (each head member).1, fun slot among => ?_⟩
    obtain ⟨head, member, inside⟩ := List.mem_flatMap.mp among
    exact (each head member).2 slot inside
  · intro ⟨formed, bound⟩ head member
    exact ⟨formed head member, fun slot inside =>
      bound slot (List.mem_flatMap.mpr ⟨head, member, inside⟩)⟩

end Bound

-- By induction on the projections: only a computed attribute names slots by itself.
mutual

/-- What a projection delivers is well-formed and bound. -/
theorem Delivers.isBound {bindings : List Value} : {item : Projection} →
    {result : Option Attribute} → Delivers bindings item result →
      ∀ head ∈ result, head.IsBound bindings
  -- By induction on the item; only a computed attribute holds slots of its own.
  | .included name, result, delivers => by
    rcases delivers with rfl | ⟨known, -, valid, rfl⟩
    · exact nofun
    · rintro head ⟨⟩
      exact isBound_plain valid
  | .alias name path, result, delivers => by
    rcases delivers with rfl | ⟨words, -, valid, rfl⟩
    · exact nofun
    · rintro head ⟨⟩
      exact ⟨valid, nofun⟩
  | .computed name function arguments, result, delivers => by
    unfold Delivers at delivers
    split at delivers
    · rw [delivers]
      exact nofun
    -- The slots of its call are those that its arguments are bound to.
    · rename_i called forms call
      obtain ⟨slot, bound, rfl⟩ := delivers
      rintro head ⟨⟩
      exact ⟨isFunctionName_of_callOf? call, fun used among => bound.lt_length among⟩
  | .nested name fields, result, delivers => by
    rcases delivers with rfl | ⟨known, attributes, -, valid, delivered, rfl⟩
    · exact nofun
    · have inside := allBound_iff.mp delivered.isBound
      rintro head ⟨⟩
      split
      · exact isBound_plain valid
      · exact ⟨⟨valid, inside.1⟩, inside.2⟩
  | .resolved name, result, delivers => by
    rcases delivers with rfl | ⟨known, -, valid, rfl | rfl⟩
    · exact nofun
    · rintro head ⟨⟩
      exact isBound_plain valid
    · rintro head ⟨⟩
      exact ⟨valid, nofun⟩
  | .expanded name fields, result, delivers => by
    rcases delivers with rfl | ⟨known, -, valid, rfl | ⟨attributes, delivered, rfl⟩⟩
    · exact nofun
    · rintro head ⟨⟩
      exact isBound_plain valid
    · have inside := allBound_iff.mp delivered.isBound
      rintro head ⟨⟩
      exact ⟨⟨valid, inside.1⟩, inside.2⟩
  | .excluded _, result, delivers | .stray _, result, delivers => by
    rw [show result = none from delivers]
    exact nofun
termination_by structural item => item

/-- What projections deliver is well-formed and bound. -/
theorem DeliverAll.isBound {bindings : List Value} : {items : List Projection} →
    {attributes : List Attribute} → DeliverAll bindings items attributes →
      ∀ head ∈ attributes, head.IsBound bindings
  -- By induction on the items, of which each delivers its own.
  | [], _, rfl => nofun
  | _ :: _, _, ⟨first, others, delivers, delivered, rfl⟩ =>
    List.forall_mem_append.mpr
      ⟨fun head there => delivers.isBound head (Option.mem_toList.mp there), delivered.isBound⟩
termination_by structural items => items

end

end Groq

end ContentQuery
