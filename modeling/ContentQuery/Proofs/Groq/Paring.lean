import ContentQuery.Proofs.Groq.Expansions
import ContentQuery.Proofs.Paring.Reading

/-! How much of the text of a statement is due to what its projection excludes. -/

namespace ContentQuery.Groq

open Compile (Eases)

/-- A text beside one that lacks a number of pairs of characters, and else is the same. -/
structure Shorter (count : Nat) (text text' : String) : Prop where
  length : text.length = text'.length + 2 * count
  same : count = 0 → text = text'

namespace Shorter

variable {count others : Nat} {text text' more more' : String}

/-- A text lacks nothing of itself. -/
theorem refl (text : String) : Shorter 0 text text :=
  ⟨rfl, fun _ => rfl⟩

/-- Two texts in a row lack what both lack. -/
theorem append (first : Shorter count text text') (second : Shorter others more more') :
    Shorter (count + others) (text ++ more) (text' ++ more') := by
  -- Lengths add up, and where nothing is shorter at all both parts are the same.
  refine ⟨?_, fun none_ => ?_⟩
  · rw [String.length_append, String.length_append, first.length, second.length]
    omega
  · rw [first.same (by omega), second.same (by omega)]

/-- A text behind another lacks nothing more than by itself. -/
theorem behind (before : String) (shorter : Shorter count text text') :
    Shorter count (before ++ text) (before ++ text') :=
  Nat.zero_add count ▸ (refl before).append shorter

/-- Neither does one between two others. -/
theorem between (before after : String) (shorter : Shorter count text text') :
    Shorter count (before ++ text ++ after) (before ++ text' ++ after) :=
  (shorter.behind before).append (refl after)

/-- A text is the same as one that lacks something where this lacks nothing. -/
theorem eq_iff (shorter : Shorter count text text') : text = text' ↔ count = 0 := by
  -- Texts that are the same are of one length, so that nothing was left out.
  refine ⟨fun same => ?_, shorter.same⟩
  have length := shorter.length
  rw [same] at length
  omega

/-- Joined texts lack what the first of them lacks and what the others lack. -/
theorem joined {rest rest' : List String} (first : Shorter count text text')
    (later : Shorter others (", ".intercalate rest) (", ".intercalate rest'))
    (filled : rest = [] ↔ rest' = []) :
    Shorter (count + others) (", ".intercalate (text :: rest))
      (", ".intercalate (text' :: rest')) := by
  -- The separators are the same: what follows is empty in both texts or in neither.
  cases rest with
  | nil =>
    obtain rfl := filled.mp rfl
    have none_ := later.eq_iff.mp rfl
    rw [String.intercalate_singleton, String.intercalate_singleton, none_]
    exact first
  | cons second more =>
    cases rest' with
    | nil => exact nomatch filled.mpr rfl
    | cons second' more' =>
      rw [String.intercalate_cons_cons, String.intercalate_cons_cons]
      exact (first.append (refl ", ")).append later

end Shorter

/-- Attributes beside others with the same keys, whose texts lack some pairs of characters. -/
inductive Shrink : Nat → List Attribute → List Attribute → Prop
  | nil : Shrink 0 [] []
  | cons {count others : Nat} {head head' : Attribute} {rest rest' : List Attribute}
    (named : head.key = head'.key) (shorter : Shorter count head.text head'.text)
    (later : Shrink others rest rest') : Shrink (count + others) (head :: rest) (head' :: rest')

namespace Shrink

variable {count others : Nat} {attributes attributes' more more' : List Attribute}

/-- Attributes lack nothing of themselves. -/
theorem refl : (attributes : List Attribute) → Shrink 0 attributes attributes
  | [] => .nil
  | head :: rest => .cons rfl (.refl head.text) (refl rest)

/-- An attribute by itself lacks what its text lacks. -/
theorem single {head head' : Attribute} (named : head.key = head'.key)
    (shorter : Shorter count head.text head'.text) : Shrink count [head] [head'] :=
  .cons named shorter .nil

/-- Attributes in two rows lack what both rows lack. -/
theorem append : {count : Nat} → {attributes attributes' : List Attribute} →
    Shrink count attributes attributes' → Shrink others more more' →
      Shrink (count + others) (attributes ++ more) (attributes' ++ more')
  -- By induction on how the first attributes shrink; what shrinks of the second comes behind.
  | _, _, _, .nil, second => (Nat.zero_add others).symm ▸ second
  | _, _, _, .cons named shorter later, second => by
    rw [Nat.add_assoc]
    exact .cons named shorter (later.append second)

/-- The keys are the same. -/
theorem keys_eq (shrink : Shrink count attributes attributes') :
    attributes.map Attribute.key = attributes'.map Attribute.key := by
  induction shrink with
  | nil => rfl
  | cons named _ _ ih => rw [List.map_cons, List.map_cons, named, ih]

/-- Their texts are there on both sides or on neither. -/
theorem texts_nil_iff (shrink : Shrink count attributes attributes') :
    Attribute.texts attributes = [] ↔ Attribute.texts attributes' = [] := by
  cases shrink <;> simp [Attribute.texts]

/-- Their texts, joined behind other texts, lack what all of them lack. -/
theorem joined (before : List String) (shrink : Shrink count attributes attributes') :
    Shorter count (", ".intercalate (before ++ Attribute.texts attributes))
      (", ".intercalate (before ++ Attribute.texts attributes')) := by
  -- The attributes written before are the same in both, so that only the induction on the shrinking
  -- says anything; a separator stands before them in both texts or in neither.
  induction before with
  | nil =>
    induction shrink with
    | nil => exact .refl _
    | cons named shorter later ih => exact shorter.joined ih later.texts_nil_iff
  | cons first rest ih =>
    have filled : rest ++ Attribute.texts attributes = [] ↔
        rest ++ Attribute.texts attributes' = [] := by
      rw [List.append_eq_nil_iff, List.append_eq_nil_iff, shrink.texts_nil_iff]
    have both := (Shorter.refl first).joined ih filled
    rwa [Nat.zero_add] at both

end Shrink

section Attributes

variable {count : Nat} {attributes attributes' : List Attribute}

/-- Attributes below a field lack what they lack by themselves. -/
theorem Shrink.nested (name : String) (inside : Shrink count attributes attributes') :
    Shrink count [.nested name attributes] [.nested name attributes'] := by
  have braced := (inside.joined []).between (name ++ "\x7b") "\x7d"
  exact .single rfl braced

/-- So do those below a reference. -/
theorem Shrink.expanded (name : String) (inside : Shrink count attributes attributes') :
    Shrink count [.expanded name attributes] [.expanded name attributes'] := by
  have braced := (inside.joined []).between
    (Text.jsonString name ++ ": " ++ name ++ "->\x7b") "\x7d"
  exact .single rfl braced

/-- A reference that is resolved as a whole lacks the braces behind one that is expanded. -/
theorem Shrink.hollow (name : String) : Shrink 1 [.expanded name []] [.resolved name] := by
  -- What goes is `->` and a pair of braces with nothing between, of which one bare name stays.
  refine .single rfl ⟨?_, fun none_ => nomatch none_⟩
  simp only [Attribute.text, Attribute.texts, String.intercalate_nil, String.length_append]
  have braced : "->\x7b".length = "->".length + 1 := by decide
  have closed : "\x7d".length = 1 := by decide
  rw [braced, closed, String.length_empty]
  omega

end Attributes

section Conversion

variable {limit depth : Nat}

/-- Names that are texts are taken over where they are names. -/
theorem ensures_nameOf?_text (name : String) :
    (nameOf? (.text name)).Ensures fun known _ =>
      known = if isName name then some name else none := by
  -- A name that is not one is told of by a notice, and gives nothing.
  unfold nameOf?
  dsimp only
  have noted (message : String) : (Compile.degrade .invalidField message (.text name) .null).Ensures
      fun _ _ => True := .degrade trivial
  split
  · exact .pure rfl
  · exact .bind (noted _) fun _ _ _ => .pure rfl

/-- What is made of a name is made of the same name, or of none. -/
theorem eases_named {count : Nat} (name : String) {next next' : String → Compile (Option Attribute)}
    (eases : Eases (fun head head' => Shrink count head.toList head'.toList) (next name)
      (next' name)) :
    Eases (fun head head' => Shrink (if isName name then count else 0) head.toList head'.toList)
      (do
        match ← nameOf? (.text name) with
        | none => return none
        | some known => next known)
      (do
        match ← nameOf? (.text name) with
        | none => return none
        | some known => next' known) := by
  -- The name is the same in both, and where it is none neither has an attribute.
  refine .after (ensures_nameOf?_text name).steady ?_
  rintro _ rfl
  cases isName name with
  | false => exact .pure .nil
  | true => exact eases

/-- A name that is included is taken over like others. -/
theorem convertField_included (name : Value) :
    convertField limit depth (.included name) = (do
      match ← nameOf? name with
      | none => return none
      | some known => return some (.plain known)) :=
  bind_congr fun known => by cases known <;> rfl

/-- Projections are converted one after the other. -/
theorem convertFields_cons (item : Projection) (rest : List Projection) :
    convertFields limit depth (item :: rest) = (do
      requireKey item.name
      let converted ← convertField limit depth item
      return converted.toList ++ (← convertFields limit depth rest)) :=
  rfl

/-- References within the limit are converted alike where those that are resolved are. -/
theorem eases_within {count : Nat} (name : String)
    {resolve resolve' : Compile (Option Attribute)}
    (eases : Eases (fun head head' => Shrink count head.toList head'.toList) resolve resolve') :
    Eases (fun head head' => Shrink (if depth < limit then count else 0) head.toList head'.toList)
      (if limit < depth + 1 then leaveUnresolved limit name else resolve)
      (if limit < depth + 1 then leaveUnresolved limit name else resolve') := by
  -- Beyond the depth neither looks into the expansion, so that nothing can have gone.
  by_cases exhausted : limit < depth + 1
  · rw [if_pos exhausted, if_pos exhausted, if_neg (by omega)]
    exact .refl (blind_leaveUnresolved limit name).steady fun _ _ => .refl _
  · rw [if_neg exhausted, if_neg exhausted, if_pos (by omega)]
    exact eases

mutual

/-- A projection is converted without what is excluded below it. -/
theorem eases_convertField {depth count : Nat} {item item' : Projection} :
    Projection.Pares isName limit depth count item item' →
      Eases (fun head head' => Shrink count head.toList head'.toList)
        (convertField limit depth item) (convertField limit depth item')
  -- One case for each way in which an item pares. The pared item has the name of the first, so that
  -- both pass the name or both fall.
  | .same _ => .refl (steady_convertField limit depth item) fun _ _ => .refl _
  | .nested name inside => by
    have fields := eases_convertFields inside
    unfold convertField
    refine eases_named _ (fields.bind fun attributes attributes' shrink => ?_)
    cases shrink with
    | nil => exact .pure (.refl _)
    | cons named shorter later => exact .pure (.nested _ (.cons named shorter later))
  -- A nested object whose fields all go is written as its bare name, as the pared item is.
  | .emptied name inside => by
    have fields := eases_convertFields inside
    rw [convertField_included]
    unfold convertField
    rw [← ite_self 0]
    refine eases_named name (.absorb fields fun attributes shrink => ?_)
    cases shrink
    exact .pure (.refl _)
  | .expanded name inside => by
    have fields := eases_convertFields inside
    unfold convertField
    simp only [Bool.and_eq_true, decide_eq_true_eq, ite_and]
    exact eases_named _ (eases_within _ (fields.bind fun _ _ shrink => .pure (.expanded _ shrink)))
  | .hollow name inside => by
    have fields := eases_convertFields inside
    unfold convertField
    simp only [Bool.and_eq_true, decide_eq_true_eq, ite_and]
    refine eases_named _ (eases_within _ (.absorb fields fun attributes shrink => ?_))
    cases shrink
    exact .pure (.hollow _)
termination_by structural pares => pares

/-- Projections are converted without those that exclude something. -/
theorem eases_convertFields {depth count : Nat} {items items' : List Projection} :
    Projection.AllPare isName limit depth count items items' →
      Eases (Shrink count) (convertFields limit depth items) (convertFields limit depth items')
  | .nil => .pure .nil
  | .cons first later => by
    have here := eases_convertField first
    have others := eases_convertFields later
    rw [convertFields_cons, convertFields_cons, first.name_eq]
    exact .after (blind_requireKey _).steady fun _ _ => here.bind fun _ _ shrink =>
      others.bind fun _ _ shrink' => .pure (shrink.append shrink')
  | .excluded name later => by
    have others := eases_convertFields later
    have passed : (requireKey (.text name)).Ensures fun _ _ => True := blind_requireKey _
    -- Nothing is delivered for an exclusion, which is only noted.
    have dropped : (convertField limit depth (.excluded (.text name))).Ensures
        fun head _ => head = none := Compile.ensures_dropped _ _ _ _
    rw [convertFields_cons]
    exact .skip passed fun _ _ => .skip dropped fun head none_ =>
      others.map fun _ _ shrink => none_ ▸ shrink
termination_by structural pares => pares

end

/-- Attributes whose keys can be told apart are converted without what is excluded. -/
theorem eases_convertTop {count : Nat} {fields fields' : List Projection}
    (pares : Projection.AllPare isName limit 0 count fields fields') :
    Eases (Shrink count) (convertTop limit fields) (convertTop limit fields') := by
  -- The keys are those of the pared attributes, so that both or neither can be looked up.
  refine (eases_convertFields pares).bind fun attributes attributes' shrink => ?_
  rw [all_isHashable_eq shrink.keys_eq]
  split
  · exact .pure shrink
  · exact .refuse

end Conversion

section Query

/-- The text of the projection of a statement, if it has one. -/
def projectionSuffix (projection : Option (List Attribute)) : String :=
  (projection.map fun attributes => " " ++ projectionText attributes).getD ""

/-- The text of a projection lacks what its attributes lack. -/
theorem Shrink.suffix {count : Nat} {attributes attributes' : List Attribute}
    (shrink : Shrink count attributes attributes') :
    Shorter count (projectionSuffix (some attributes)) (projectionSuffix (some attributes')) := by
  -- The system fields put behind are those that no key names, and the keys are the same.
  simp only [projectionSuffix, Option.map_some, Option.getD_some, projectionText, shrink.keys_eq]
  have braced := (shrink.joined (systemFields.filter fun field =>
    !(attributes'.map Attribute.key).contains (.text field))).between "\x7b" "\x7d"
  exact braced.behind " "

variable (settings : Settings) (query : Query)

/-- The number of references that a query expands to nothing but exclusions. -/
def hollowExpansions : Nat :=
  Projection.hollows isName settings.maxResolveDepth 0 query.projection

/-- The projection of a query is converted without what it excludes. -/
theorem eases_projectionOf :
    Eases (fun projection projection' => Shorter (hollowExpansions settings query)
        (projectionSuffix projection) (projectionSuffix projection'))
      (projectionOf settings query) (projectionOf settings query.pared) := by
  have fields := Projection.eases_readTop isName settings.maxResolveDepth settings.depthLimit
    query.projection
  refine fields.bind fun fields fields' pares => ?_
  refine .after (settings.blind_resolveDepth query).steady fun depth _ => ?_
  have top := eases_convertTop pares
  -- Whether the depth is noted or not, the fields are converted in the same way.
  have ended : Eases (fun projection projection' => Shorter (hollowExpansions settings query)
        (projectionSuffix projection) (projectionSuffix projection'))
      (if query.projection.isNull then pure none
        else return some (← convertTop settings.maxResolveDepth fields))
      (if query.pared.projection.isNull then pure none
        else return some (← convertTop settings.maxResolveDepth fields')) := by
    rw [Query.pared, Projection.isNull_pare]
    split
    · rename_i absent
      rw [hollowExpansions, Projection.hollows_of_isNull absent 0]
      exact .pure (.refl _)
    · exact top.bind fun _ _ shrink => .pure shrink.suffix
  dsimp only
  rw [pares.any_isExpansion_eq]
  split
  · exact .after Compile.Steady.degrade fun _ _ => ended
  · exact ended

/-- A query is converted without what its projection excludes, behind the same filter. -/
theorem eases_finish (filter : List Expression) :
    Eases (fun result result' => Shorter (hollowExpansions settings query) result.1.text
        result'.1.text ∧ result.2 = result'.2)
      (finish settings query filter) (finish settings query.pared filter) := by
  -- The order, the slice and the parameters do not read the projection.
  refine .after (blind_convertOrder query.order).steady fun order _ => ?_
  refine .after (blind_convertSlice settings query).steady fun slice _ => ?_
  refine (eases_projectionOf settings query).bind fun projection projection' shorter => ?_
  refine .after (steady_convertParameters settings query) fun parameters _ => ?_
  exact .pure ⟨shorter.behind _, rfl⟩

/-- A query without what its projection excludes compiles to the same statement but for braces. -/
theorem pared_of_compile {conditions : List Condition} {compiled : Compiled Statement Value}
    (ran : compile settings query conditions = .ok compiled) :
    ∃ pared, compile settings query.pared conditions = .ok pared ∧
      Shorter (hollowExpansions settings query) compiled.query.text pared.query.text ∧
        compiled.parameters = pared.parameters := by
  -- Both conversions run from the same bindings, and only the text at the end is shorter.
  obtain ⟨forms, ran⟩ := run_of_compile ran
  rw [convertQuery_eq] at ran
  rw [compile_of_run forms, convertQuery_eq]
  exact Compiled.run_of_eases (eases_finish settings query) ran

end Query

end ContentQuery.Groq
