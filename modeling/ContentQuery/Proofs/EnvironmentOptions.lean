import ContentQuery.Environment
import ContentQuery.Proofs.EntryForms

/-! Options from the environment, and the compilers that are made of them. -/

namespace ContentQuery

/-- A map has the keys of more names if it has those of fewer. -/
theorem Query.keysWithin_mono {names names' : List String} {entries : List (Value × Value)}
    (more : ∀ name ∈ names, name ∈ names') (within : keysWithin names entries = true) :
    keysWithin names' entries = true := by
  -- The names are asked about entry by entry, and only the list of known ones grows.
  unfold keysWithin at within ⊢
  rw [List.all_eq_true] at within ⊢
  intro entry member
  have known := within entry member
  cases key : entry.1 with
  | text name =>
    rw [key] at known
    exact List.contains_iff_mem.mpr (more name (List.contains_iff_mem.mp known))
  | _ =>
    rw [key] at known
    exact nomatch known

/-- Keys that are names, none of which names the target, are those of options. -/
theorem Compiler.areOptions_of_keysWithin {names : List String} {entries : List (Value × Value)}
    (within : Query.keysWithin names entries = true) (apart : "target" ∉ names) :
    areOptions entries = true := by
  -- A known name is a text, and it is not the one that the compiler itself has taken.
  unfold Query.keysWithin at within
  unfold areOptions
  rw [List.all_eq_true] at within ⊢
  intro entry member
  have known := within entry member
  cases key : entry.1 with
  | text name =>
    rw [key] at known
    refine bne_iff_ne.mpr ?_
    rintro rfl
    exact apart (List.contains_iff_mem.mp known)
  | _ =>
    rw [key] at known
    exact nomatch known

/-- Where limits are read, settings are made of what is left, unless no level is allowed. -/
theorem Settings.ofOptions_eq {target : Target} {options : List (Value × Value)}
    {limit : Option Nat} {maxResolveDepth maxDepth : Nat}
    (limitRead : (optionOr options "default_limit" .null).readNatural? "default_limit" = .ok limit)
    (levelsRead : readNatural "max_resolve_depth"
      (optionOr options "max_resolve_depth" (.int standardDepth)) = .ok maxResolveDepth)
    (depthRead : readNatural "max_depth" (optionOr options "max_depth" (.int standardDepth)) =
      .ok maxDepth) :
    ofOptions target options =
      if maxDepth < 1 then .error (.invalid .depthBelowOne)
      else do
        let fallbackLocales ← (optionOr options "fallback_locales" .null).elementsOrNone
        let globalFilter ←
          GlobalFilter.read target (.levels maxDepth) (optionOr options "global_filter" .null)
        return {
          fallbackLocales, maxResolveDepth, maxDepth, globalFilter
          defaultLocale := optionOr options "default_locale" .null
          defaultLimit := limit.or (standardLimit target)
          includeDrafts := optionOr options "include_drafts" .null
          strict := optionOr options "strict" (.bool false) } := by
  unfold ofOptions
  simp only [limitRead, levelsRead, depthRead]
  show (if maxDepth < 1 then _ else _) = _
  split <;> rfl

namespace Environment

variable {assigned : Assignment} {config : List (Value × Value)}

/-- The number that a text stands for, unless it is blank. -/
def numberIn (text : String) : Option Int :=
  if Text.isVacant text then none else Text.readInteger text

/-- What a word switches an option to. -/
def switchOf (word : String) : Option Bool :=
  if onWords.contains word then some true
  else if offWords.contains word then some false
  else none

/-- The flag that a text stands for, unless it is blank. -/
def flagIn (text : String) : Option Bool :=
  if Text.isVacant text then none else switchOf (Text.lowerAscii (Text.strip text))

/-- The number that a variable sets its option to. -/
def numberOf (assigned : Assignment) (source : Variable) : Option Int :=
  (assigned source.name).bind numberIn

/-- The flag that a variable sets its option to. -/
def flagOf (assigned : Assignment) (source : Variable) : Option Bool :=
  (assigned source.name).bind flagIn

/-- The locale that a variable sets its option to. -/
def localeOf (assigned : Assignment) (source : Variable) : Option String :=
  (assigned source.name).filter (!·.isEmpty)

/-- The locales that a variable lists. -/
def localesOf (assigned : Assignment) (source : Variable) : List String :=
  listItems ((assigned source.name).getD "")

/-- What a variable sets its option to, if it is assigned and sets the option at all. -/
def setting (assigned : Assignment) (source : Variable) : Except Fault (Option Value) :=
  match assigned source.name with
  | none => .ok none
  | some text => readVariable source text

/-- The variables that set numbers. -/
def Variable.isNumeric : Variable → Bool
  | .defaultLimit | .maxResolveDepth | .maxFilterDepth => true
  | _ => false

/-- The variables that set flags. -/
def Variable.isFlag : Variable → Bool
  | .includeDrafts | .strict => true
  | _ => false

/-- Different variables set different options. -/
theorem Variable.option_inj {source other : Variable} (same : source.option = other.option) :
    source = other := by
  revert same
  cases source <;> cases other <;> decide

/-- A text that is read as a number sets it, and the number is not negative. -/
theorem readNatural_ok {name text : String} {value : Option Value}
    (read : readNatural name text = .ok value) : value = (numberIn text).map .int ∧
      ∀ number, numberIn text = some number → 0 ≤ number := by
  -- What is vacant counts as not set; a numeral is read, and then refused if it is negative.
  unfold readNatural at read
  unfold numberIn
  split at read
  · rename_i vacant
    cases read
    rw [if_pos vacant]
    exact ⟨rfl, nofun⟩
  · rename_i spelled
    rw [if_neg spelled]
    cases numeral : Text.readInteger text with
    | none =>
      rw [numeral] at read
      exact nomatch read
    | some number =>
      rw [numeral] at read
      dsimp only at read
      split at read
      · exact nomatch read
      · rename_i natural
        cases read
        exact ⟨rfl, fun _ same => Option.some.inj same ▸ Int.not_lt.mp natural⟩

/-- A text that is read as a flag sets it. -/
theorem readFlag_ok {name text : String} {value : Option Value}
    (read : readFlag name text = .ok value) : value = (flagIn text).map .bool := by
  -- The words for on are tried before those for off, and any other word is refused.
  unfold readFlag at read
  unfold flagIn switchOf
  split at read
  · rename_i vacant
    cases read
    rw [if_pos vacant]
    rfl
  · rename_i spelled
    rw [if_neg spelled]
    dsimp only at read
    split at read
    · rename_i on
      cases read
      rw [if_pos on]
      rfl
    · rename_i notOn
      rw [if_neg notOn]
      split at read
      · rename_i off
        cases read
        rw [if_pos off]
        rfl
      · exact nomatch read

section Settings

variable {source : Variable} {value : Option Value}

/-- A variable of a number sets it, and the number is not negative. -/
theorem setting_number (numeric : source.isNumeric = true)
    (read : setting assigned source = .ok value) :
    value = (numberOf assigned source).map .int ∧
      ∀ number, numberOf assigned source = some number → 0 ≤ number := by
  -- What is not assigned is no number; of what is, only the numeric variables are read as numbers.
  unfold setting at read
  unfold numberOf
  cases there : assigned source.name with
  | none =>
    rw [there] at read
    cases read
    exact ⟨rfl, nofun⟩
  | some text =>
    rw [there] at read
    cases source with
    | defaultLimit | maxResolveDepth | maxFilterDepth => exact readNatural_ok read
    | _ => exact nomatch numeric

/-- A variable of a flag sets it. -/
theorem setting_flag (flag : source.isFlag = true) (read : setting assigned source = .ok value) :
    value = (flagOf assigned source).map .bool := by
  -- As for numbers, with the two switches in the place of the three limits.
  unfold setting at read
  unfold flagOf
  cases there : assigned source.name with
  | none =>
    rw [there] at read
    cases read
    rfl
  | some text =>
    rw [there] at read
    cases source with
    | includeDrafts | strict => exact readFlag_ok read
    | _ => exact nomatch flag

/-- The variable of the locale sets it. -/
theorem setting_locale (read : setting assigned .defaultLocale = .ok value) :
    value = (localeOf assigned .defaultLocale).map .text := by
  -- An empty text counts as not set, as it does in the specification.
  unfold setting at read
  unfold localeOf
  cases there : assigned Variable.defaultLocale.name with
  | none =>
    rw [there] at read
    cases read
    rfl
  | some text =>
    rw [there] at read
    cases read
    cases blank : text.isEmpty <;> simp [Option.filter, blank]

/-- The variable of the locales sets them, unless it lists none. -/
theorem setting_locales (read : setting assigned .fallbackLocales = .ok value) :
    (value.getD .null).elementsOrNone =
      .ok ((localesOf assigned .fallbackLocales).map .text) := by
  -- An empty list of items is handed on as null, which is walked over like no items.
  unfold setting at read
  unfold localesOf
  cases there : assigned Variable.fallbackLocales.name with
  | none =>
    rw [there] at read
    cases read
    rfl
  | some text =>
    rw [there] at read
    cases read
    rw [Option.getD_some]
    cases items : listItems text with
    | nil => rfl
    | cons first rest => rfl

end Settings

/-- Options come from the first variable, if it sets its own, and from the others. -/
theorem exists_of_optionsOf {source : Variable} {rest : List Variable}
    (read : optionsOf assigned (source :: rest) = .ok config) :
    ∃ value others, setting assigned source = .ok value ∧ optionsOf assigned rest = .ok others ∧
      config = (value.map fun value => (Value.text source.option, value)).toList ++ others := by
  -- A variable that is not assigned is a setting that is left out, so that every variable is one
  -- step of the same kind.
  have read : (do
      let value ← setting assigned source
      let others ← optionsOf assigned rest
      return (value.map fun value => (Value.text source.option, value)).toList ++ others) =
        Except.ok config := by
    unfold optionsOf at read
    unfold setting
    cases there : assigned source.name with
    | none =>
      rw [there] at read
      exact read
    | some text =>
      rw [there] at read
      exact read
  obtain ⟨value, first, read⟩ := ok_of_bind read
  obtain ⟨others, later, read⟩ := ok_of_bind read
  cases read
  exact ⟨value, others, first, later, rfl⟩

/-- Options have the names of what the variables set. -/
theorem keysWithin_optionsOf {sources : List Variable}
    (read : optionsOf assigned sources = .ok config) :
    Query.keysWithin (sources.map Variable.option) config = true := by
  -- By induction on the variables: each adds the name of its option or nothing.
  induction sources generalizing config with
  | nil =>
    cases read
    rfl
  | cons source rest ih =>
    obtain ⟨value, others, -, later, rfl⟩ := exists_of_optionsOf read
    have within := Query.keysWithin_mono (fun _ => List.mem_cons_of_mem source.option) (ih later)
    cases value with
    | none => exact within
    | some value =>
      exact Bool.and_eq_true_iff.mpr ⟨List.contains_iff_mem.mpr List.mem_cons_self, within⟩

/-- What the first variable sets is found under the name of its option, and all else behind it. -/
theorem lookup?_set (source : Variable) (value : Option Value) (others : List (Value × Value))
    (name : String) :
    Value.lookup? name
        ((value.map fun value => (Value.text source.option, value)).toList ++ others) =
      if source.option = name then value.or (Value.lookup? name others)
      else Value.lookup? name others := by
  -- The option stands in front, if there is one.
  cases value with
  | none => rw [Option.none_or, ite_self]; rfl
  | some value => rfl

/-- Under the name of its option stands what a variable sets it to. -/
theorem setting_eq_lookup? {sources : List Variable}
    (read : optionsOf assigned sources = .ok config) (distinct : sources.Nodup) :
    ∀ source ∈ sources, setting assigned source = .ok (Value.lookup? source.option config) := by
  -- By induction on the variables: what the first one sets is not set again, since their options
  -- are distinct.
  induction sources generalizing config with
  | nil => exact nofun
  | cons first rest ih =>
    obtain ⟨value, others, found, later, rfl⟩ := exists_of_optionsOf read
    obtain ⟨fresh, distinct⟩ := List.nodup_cons.mp distinct
    intro source member
    rcases List.mem_cons.mp member with rfl | member
    -- The first variable is found in front, and is absent behind.
    · have absent : Value.lookup? source.option others = none := by
        refine Query.lookup?_of_keysWithin (keysWithin_optionsOf later) fun again => ?_
        obtain ⟨other, member, same⟩ := List.mem_map.mp again
        exact fresh (Variable.option_inj same ▸ member)
      rw [found, lookup?_set, if_pos rfl, absent, Option.or_none]
    -- Another variable is found behind the first one, which has another option.
    · have apart : first.option ≠ source.option := fun same =>
        fresh (Variable.option_inj same ▸ member)
      rw [ih later distinct source member, lookup?_set, if_neg apart]

/-- A variable sets its option to what stands under the name of the option. -/
theorem setting_of_options (read : options assigned = .ok config) (source : Variable) :
    setting assigned source = .ok (Value.lookup? source.option config) :=
  setting_eq_lookup? read (by decide) source (by cases source <;> decide)

/-- The settings of a compiler for a target are what variables set, and the standard otherwise. -/
structure Configures (assigned : Assignment) (target : Target) (settings : Settings) : Prop where
  defaultLimit : settings.defaultLimit.map Int.ofNat =
    (numberOf assigned .defaultLimit).or ((Settings.standardLimit target).map Int.ofNat)
  maxResolveDepth : settings.maxResolveDepth =
    (numberOf assigned .maxResolveDepth).getD Settings.standardDepth
  maxDepth : settings.maxDepth = (numberOf assigned .maxFilterDepth).getD Settings.standardDepth
  includeDrafts : settings.includeDrafts = ((flagOf assigned .includeDrafts).map .bool).getD .null
  strict : settings.strict = .bool ((flagOf assigned .strict).getD false)
  defaultLocale : settings.defaultLocale = ((localeOf assigned .defaultLocale).map .text).getD .null
  fallbackLocales : settings.fallbackLocales = (localesOf assigned .fallbackLocales).map .text
  globalFilter : settings.globalFilter = .conditions [] []

section Numbers

variable {number : Option Int} (natural : ∀ given, number = some given → 0 ≤ given)

include natural

/-- A number that is not negative passes as the natural number that it is. -/
theorem readNatural?_number (name : String) :
    ((number.map Value.int).getD .null).readNatural? name = .ok (number.map Int.toNat) := by
  -- Only a number that is not negative was kept, so that it is read.
  cases number with
  | none => rfl
  | some given =>
    cases given with
    | ofNat count => rfl
    | negSucc count => exact absurd (natural _ rfl) (by omega)

/-- A number that is not negative passes where there must be one, and so does the standard. -/
theorem readNatural_number (name : String) (standard : Nat) :
    Settings.readNatural name ((number.map .int).getD (.int standard)) =
      .ok (number.getD standard).toNat := by
  -- The same with a standard in the place of no number.
  cases number with
  | none => rfl
  | some given =>
    cases given with
    | ofNat count => rfl
    | negSucc count => exact absurd (natural _ rfl) (by omega)

/-- The natural numbers of a number that is not negative, or of others, are that number. -/
theorem map_ofNat_or (others : Option Nat) :
    ((number.map Int.toNat).or others).map Int.ofNat = number.or (others.map Int.ofNat) := by
  -- A number that is not negative is the same as an integer and as a count.
  cases number with
  | none => rfl
  | some given => exact congrArg some (Int.toNat_of_nonneg (natural given rfl))

/-- A number that is not negative, or a standard, is the natural number of it. -/
theorem toNat_getD_eq {standard : Nat} :
    ((number.getD standard).toNat : Int) = number.getD standard := by
  -- Where no number is set, both sides are the standard.
  cases number with
  | none => rfl
  | some given => exact Int.toNat_of_nonneg (natural given rfl)

/-- A number that is neither negative nor zero, or else the standard, is positive. -/
theorem toNat_getD_pos {standard : Nat} (nonzero : number ≠ some 0) (positive : 0 < standard) :
    ¬(number.getD standard).toNat < 1 := by
  -- A natural number that is not zero is at least one.
  cases number with
  | none => exact Nat.not_lt.mpr positive
  | some given =>
    have other : given ≠ 0 := fun zero => nonzero (congrArg some zero)
    have above := natural given rfl
    show ¬given.toNat < 1
    omega

end Numbers

/-- Options from the environment make settings, unless they allow no level of filters. -/
theorem ofOptions_options (read : options assigned = .ok config) (target : Target) :
    if numberOf assigned .maxFilterDepth = some 0 then
      Settings.ofOptions target config = .error (.invalid .depthBelowOne)
    else ∃ settings, Settings.ofOptions target config = .ok settings ∧
      Configures assigned target settings := by
  -- The five settings that may be refused are read first, each from the variable that it is found
  -- under.
  have found := setting_of_options read
  obtain ⟨limit, limitNatural⟩ := setting_number (by rfl) (found .defaultLimit)
  obtain ⟨levels, levelsNatural⟩ := setting_number (by rfl) (found .maxResolveDepth)
  obtain ⟨depth, depthNatural⟩ := setting_number (by rfl) (found .maxFilterDepth)
  have limitRead := readNatural?_number limitNatural "default_limit"
  have levelsRead := readNatural_number levelsNatural "max_resolve_depth" Settings.standardDepth
  have depthRead := readNatural_number depthNatural "max_depth" Settings.standardDepth
  rw [← limit] at limitRead
  rw [← levels] at levelsRead
  rw [← depth] at depthRead
  rw [Settings.ofOptions_eq limitRead levelsRead depthRead]
  -- No variable stands for a global filter.
  have filterRead (limit : DepthLimit) : GlobalFilter.read target limit
      (Settings.optionOr config "global_filter" .null) = .ok (.conditions [] []) := by
    have unset : Value.lookup? "global_filter" config = none :=
      Query.lookup?_of_keysWithin (keysWithin_optionsOf read) (by decide)
    rw [Settings.optionOr, unset]
    rfl
  -- A depth of zero passes for a number and is refused by the compiler.
  by_cases zero : numberOf assigned .maxFilterDepth = some 0
  · rw [if_pos zero, zero]
    rfl
  · have positive : ¬((numberOf assigned .maxFilterDepth).getD Settings.standardDepth).toNat < 1 :=
      toNat_getD_pos depthNatural zero (by decide)
    rw [if_neg zero, if_neg positive]
    exact ⟨_, bind_ok (setting_locales (found .fallbackLocales)) (bind_ok (filterRead _) rfl), {
      defaultLimit := map_ofNat_or limitNatural _
      maxResolveDepth := toNat_getD_eq levelsNatural
      maxDepth := toNat_getD_eq depthNatural
      includeDrafts := congrArg (·.getD .null) (setting_flag rfl (found .includeDrafts))
      strict := by
        rw [Settings.optionOr, ← Option.getD_map Value.bool false]
        exact congrArg (·.getD (.bool false)) (setting_flag rfl (found .strict))
      defaultLocale := congrArg (·.getD .null) (setting_locale (found .defaultLocale))
      fallbackLocales := rfl
      globalFilter := rfl }⟩

/-- The name of a target stands for it. -/
theorem ofValue?_name (target : Target) : Target.ofValue? (.text target.name) = some target := by
  cases target <;> decide

/--
Options from the environment make a compiler for every target, with the numbers and flags that are
set, unless they allow no level of filters: then no compiler is made for any target.
-/
theorem options_make_compilers (read : options assigned = .ok config) (target : Target) :
    if numberOf assigned .maxFilterDepth = some 0 then
      Compiler.create (.text target.name) config = .error (.invalid .depthBelowOne)
    else ∃ compiler, Compiler.create (.text target.name) config = .ok compiler ∧
      compiler.target = target ∧ Configures assigned target compiler.settings := by
  -- The options pass the tests on their names, whatever their values are, so that the settings
  -- decide.
  have within := keysWithin_optionsOf read
  have known : Query.keysWithin (Settings.optionNames ++ target.ownOptionNames) config = true := by
    refine Query.keysWithin_mono (fun name member => List.mem_append_left _ ?_) within
    revert name
    decide
  have created : Compiler.create (.text target.name) config = Compiler.ofTarget target config := by
    rw [Compiler.create, Compiler.areOptions_of_keysWithin within (by decide), ofValue?_name]
    rfl
  rw [created, Compiler.ofTarget, known]
  have made := ofOptions_options read target
  split
  · rename_i zero
    rw [if_pos zero] at made
    rw [made]
    rfl
  · rename_i nonzero
    rw [if_neg nonzero] at made
    obtain ⟨settings, made, configures⟩ := made
    rw [made]
    cases target with
    | groq => exact ⟨.groq settings, rfl, rfl, configures⟩
    | contentful => exact ⟨.contentful settings _, rfl, rfl, configures⟩
    | qdrant => exact ⟨.qdrant ⟨settings, _, _⟩, rfl, rfl, configures⟩

/-- An environment in which one variable is assigned a text. -/
def only (source : Variable) (text : String) : Assignment :=
  fun name => if name = source.name then some text else none

/-- A depth with blanks, a sign and an underscore makes a compiler with twelve levels. -/
theorem options_make_compilers_spelled :
    options (only .maxFilterDepth " +1_2 ") = .ok [(.text "max_depth", .int 12)] ∧
      ∃ compiler, Compiler.create (.text "qdrant") [(.text "max_depth", .int 12)] = .ok compiler ∧
        compiler.target = .qdrant ∧
        Configures (only .maxFilterDepth " +1_2 ") .qdrant compiler.settings := by
  -- Blanks, a sign and an underscore are all part of a numeral.
  have read : options (only .maxFilterDepth " +1_2 ") = .ok [(.text "max_depth", .int 12)] := rfl
  have made := options_make_compilers read .qdrant
  rw [if_neg (by decide)] at made
  exact ⟨read, made⟩

/-- A depth of zero is read from the environment, and no compiler is made of it. -/
theorem depth_zero_makes_no_compiler :
    options (only .maxFilterDepth "0") = .ok [(.text "max_depth", .int 0)] ∧
      Compiler.create (.text "groq") [(.text "max_depth", .int 0)] =
        .error (.invalid .depthBelowOne) :=
  ⟨rfl, rfl⟩

end Environment

end ContentQuery
