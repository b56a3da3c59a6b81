import ContentQuery.Proofs.Contentful.Options
import ContentQuery.Proofs.Degradation
import ContentQuery.Proofs.Groq.OutOfBand
import ContentQuery.Proofs.Qdrant.Options

/-! A locale that a query names: where it is sent, and where a parameter passed through wins. -/

namespace ContentQuery

open Compile (Yields NotesOnly)

/-- What a steady compilation gives is what its runs yield. -/
theorem Compile.Steady.yields {α : Type} {compile : Compile α} {post : α → Prop}
    (steady : compile.Steady post) : compile.Yields fun result _ => post result := by
  intro context result after ran
  obtain ⟨met, given, listed, -⟩ := steady.of_run ran
  exact ⟨given, listed, met⟩

/-- A locale that is a text with characters in it counts as one. -/
theorem Query.isTruthy_locale {query : Query} {name : String} (located : query.locale = .text name)
    (filled : name ≠ "") : query.locale.isTruthy = true := by
  rw [located, Value.isTruthy, Bool.not_eq_true', Bool.eq_false_iff]
  exact mt String.isEmpty_iff.mp filled

namespace Groq

/-- A locale takes its name among the parameters where the name is free. -/
theorem get?_addLocale {locale : Value} (there : locale.isTruthy = true) (name : String)
    (parameters : OrderedMap Value Value) :
    (addLocale name locale parameters).get? (.text name) =
      (parameters.get? (.text name)).or (some locale) := by
  unfold addLocale
  rw [there, Bool.true_and, OrderedMap.contains_eq_isSome]
  -- The name is free exactly where nothing is found under it.
  cases found : parameters.get? (.text name) with
  | some value => simp [found]
  | none => simp [OrderedMap.get?_insert_self (Value.isDiscrete_text name)]

/-- A locale is no parameter under another name. -/
theorem get?_addLocale_of_ne {name other : String} (different : name ≠ other) (locale : Value)
    (parameters : OrderedMap Value Value) :
    (addLocale name locale parameters).get? (.text other) = parameters.get? (.text other) := by
  -- Only the parameter of that name may be added.
  unfold addLocale
  split
  · exact OrderedMap.get?_insert_of_ne (Value.isDiscrete_text other) _
      (fun same => different (Value.text.inj same)) locale
  · rfl

/-- No placeholder is called like the locale. -/
theorem get?_locale_named (context : Context) :
    (⟨context.named⟩ : OrderedMap Value Value).get? (.text "locale") = none := by
  have named : (⟨context.named⟩ : OrderedMap Value Value).keys.Sublist
      ((namesOf (List.range context.bindings.length)).map .text) := by
    rw [keys_named, namesOf, List.map_map, List.range_eq_range']
    exact List.Sublist.refl _
  refine get?_eq_none_of_named named fun member => ?_
  obtain ⟨slot, -, same⟩ := List.mem_map.mp member
  -- The names of placeholders have a first letter of their own.
  have letters := congrArg (fun name : String => name.toList.head?) same
  rw [Context.slotName, String.toList_append] at letters
  have apart : some 'p' ≠ some 'l' := by decide
  exact apart letters

section Query

variable (settings : Settings) {query : Query}

/-- A locale of the query is sent, unless something is passed through under the name. -/
theorem yields_convertParameters (there : query.locale.isTruthy = true) :
    (convertParameters settings query).Yields fun parameters _ =>
      parameters.get? (.text "locale") =
        (query.params.get? (.text "locale")).or (some query.locale) := by
  have own : query.locale.orElse settings.defaultLocale = query.locale := if_pos there
  refine .looked fun context => .bind (ensures_passThrough _ _ _ _ _).yields
    fun parameters _ same => .pure ?_
  -- What is passed through comes before the locale of the query, and after the placeholders.
  subst same
  rw [get?_addLocale_of_ne (by decide), own, get?_addLocale there,
    get?_passed _ _ (Value.isDiscrete_text "locale"), get?_locale_named]
  simp

/-- The reasons for notices about anything beside the filter of a statement. -/
def besideReasons : List Reason :=
  .invalidField :: .cursorPagination :: .invalidProjection :: .resolveOutOfBand ::
    .parameterCollision :: conversionReasons

/-- A projection leaves notices about its fields and about the depth of references. -/
theorem notesOnly_projectionOf (query : Query) :
    (projectionOf settings query).NotesOnly besideReasons := by
  -- Reading the projection, granting the depth and converting the fields all have their reasons.
  have ended (fields : List Projection) : NotesOnly besideReasons
      (if query.projection.isNull then pure none
        else return some (← convertTop settings.maxResolveDepth fields)) := by
    split
    · exact .pure
    · exact .bind ((notesOnly_convertTop _ _).mono (by decide)) fun _ => .pure
  refine .bind ((Projection.notesOnly_readTop _ _).mono (by decide)) fun fields => ?_
  refine .bind ((settings.notesOnly_resolveDepth query).mono (by decide)) fun depth => ?_
  dsimp only
  split
  · exact .bind (.degrade (by decide)) fun _ => ended fields
  · exact ended fields

/-- What follows the filter of a query leaves notices about what is beside it. -/
theorem notesOnly_finish (query : Query) (filter : List Expression) :
    (finish settings query filter).NotesOnly besideReasons :=
  .bind ((notesOnly_convertOrder _).mono (by decide)) fun _ =>
    .bind ((notesOnly_convertSlice settings query).mono (by decide)) fun _ =>
      .bind (notesOnly_projectionOf settings query) fun _ =>
        .bind ((notesOnly_convertParameters settings query).mono (by decide)) fun _ => .pure

/-- A statement has the locale of its query, or what is passed through, and never notes which. -/
theorem locale_of_compile {settings : Settings} {conditions : List Condition}
    {compiled : Compiled Statement Value} (there : query.locale.isTruthy = true)
    (ran : compile settings query conditions = .ok compiled) :
    compiled.parameters.get? (.text "locale") =
        (query.params.get? (.text "locale")).or (some query.locale) ∧
      ¬ Mentions .unsupportedLocale compiled.notices := by
  have sent (filter : List Expression) : (finish settings query filter).Yields
      fun result _ => result.2.get? (.text "locale") =
        (query.params.get? (.text "locale")).or (some query.locale) :=
    .bind (blind_convertOrder _).steady.yields fun _ _ _ =>
      .bind (blind_convertSlice settings query).steady.yields fun _ _ _ =>
        .bind (steady_projectionOf settings query).yields fun _ _ _ =>
          .bind (yields_convertParameters settings there) fun _ _ same => .pure same
  obtain ⟨last, gave, listed, -⟩ := Compiled.ok_of_run (run_of_compile ran).2
  rw [convertQuery_eq] at gave
  obtain ⟨filter, after, filtered, ended⟩ := Compile.ok_of_bind gave
  obtain ⟨literals, lost, rfl, noted, -⟩ :=
    (ensures_filterParts_pruned settings query conditions).of_run (Except.ok.inj filtered)
  obtain ⟨given, same, found, beside⟩ :=
    (sent filter).and (notesOnly_finish settings query filter) _ _ _ ended
  refine ⟨found, ?_⟩
  -- Neither the failing nodes of the filter nor what is beside it give this reason.
  have unfiltered : ¬ Mentions .unsupportedLocale lost := Mentions.absent noted.reasons (by decide)
  have behind : ¬ Mentions .unsupportedLocale given := Mentions.absent beside (by decide)
  have before : (Context.empty.extend literals lost).notices = lost := rfl
  rw [listed, same, before, Mentions.append, not_or]
  exact ⟨unfiltered, behind⟩

end Query

end Groq

namespace Contentful

/-- A locale of the query is the one that is chosen. -/
theorem yields_localeOf_given {query : Query} (there : query.locale.isTruthy = true)
    (settings : Settings) (everyLocale : Value) :
    (localeOf settings everyLocale query).Yields fun locale _ => locale = query.locale := by
  -- The query's own locale goes before that of the settings.
  unfold localeOf
  simp only [there, if_true]
  split
  · exact .noted (.pure rfl)
  · exact .pure rfl

/-- The parameters beside a filter have the locale of the query. -/
theorem yields_optionsOf_locale {query : Query} (there : query.locale.isTruthy = true)
    (settings : Settings) (everyLocale : Value) :
    (optionsOf settings everyLocale query).Yields fun own _ =>
      own.get? (.text "locale") = some query.locale := by
  refine .bind (steady_selectionOf settings query).yields fun selection _ _ => ?_
  refine .bind (steady_orderClauses query.order).yields fun clauses _ _ => ?_
  refine .bind (steady_windowOf settings query).yields fun window _ _ => ?_
  refine .bind (yields_localeOf_given there settings everyLocale) fun locale _ chosen => ?_
  refine .bind (steady_includeOf settings query _).yields fun depth _ _ => .pure ?_
  subst chosen
  -- The locale is found behind parameters of other names.
  simp only [List.append_assoc, entry?, Value.get?_optional, String.reduceEq, if_false, if_true,
    there, Option.some_or]

/-- A request has the locale of its query, whatever is passed through. -/
theorem locale_of_compile {settings : Settings} {everyLocale : Value} {query : Query}
    {conditions : List Condition} {compiled : Request} (there : query.locale.isTruthy = true)
    (ran : compile settings everyLocale query conditions = .ok compiled) :
    compiled.parameters.get? (.text "locale") = some query.locale := by
  obtain ⟨last, gave, -⟩ := Compiled.ok_of_run (run_of_compile ran).1
  rw [convertQuery_eq] at gave
  obtain ⟨filter, _, -, gave⟩ := Compile.ok_of_bind gave
  obtain ⟨own, _, chosen, gave⟩ := Compile.ok_of_bind gave
  obtain ⟨parameters, _, passing, gave⟩ := Compile.ok_of_bind gave
  obtain ⟨-, -, found⟩ := yields_optionsOf_locale there _ _ _ _ _ chosen
  obtain ⟨-, -, same⟩ := (ensures_passThrough _ _ _ _ _).yields _ _ _ passing
  have shown : compiled.parameters = parameters :=
    (Prod.mk.inj (Prod.mk.inj (Except.ok.inj gave)).1).2.symm
  -- What was compiled is not replaced by what is passed through.
  rw [shown, same, get?_passed _ _ (Value.isDiscrete_text "locale"), found, Option.some_or]

end Contentful

namespace Qdrant

/-- The options of a scroll note a locale of the query. -/
theorem yields_optionsOf_locale {query : Query} (there : query.locale.isTruthy = true)
    (configuration : Configuration) : (optionsOf configuration query).Yields fun _ given =>
      Mentions .unsupportedLocale given := by
  refine .bind (steady_payloadOf configuration query).yields fun payload _ _ => ?_
  refine .bind (steady_orderOf _ _ _).yields fun order _ _ => ?_
  refine .bind (steady_limitOf _ query).yields fun limit _ _ => ?_
  refine .bind (steady_cursorOf query _).yields fun cursor _ _ => ?_
  refine .bind (Settings.blind_resolveWith _ query _).steady.yields fun depth _ _ => ?_
  simp only [there, Bool.true_or, if_true]
  refine .noted (.pure ?_)
  -- The notice is the last of all.
  simp only [Mentions.append, Mentions.cons, true_or, or_true]

/-- A scroll has a notice about the locale of its query. -/
theorem locale_of_compile {configuration : Configuration} {query : Query}
    {conditions : List Condition} {compiled : Scroll} (there : query.locale.isTruthy = true)
    (ran : compile configuration query conditions = .ok compiled) :
    Mentions .unsupportedLocale compiled.notices := by
  -- The notice stands among those of the options, behind those of the filter.
  have noted (filter : Option Clause) : (finish configuration query filter).Yields
      fun _ given => Mentions .unsupportedLocale given :=
    .bind (yields_optionsOf_locale there configuration) fun _ _ mentions =>
      .bind (steady_passThrough _ _ _ _ _).yields fun _ _ _ =>
        .pure (Mentions.append.mpr (Or.inl mentions))
  obtain ⟨last, gave, listed, -⟩ := Compiled.ok_of_run (run_of_compile ran).1
  rw [convertQuery_eq] at gave
  obtain ⟨filter, after, -, ended⟩ := Compile.ok_of_bind gave
  obtain ⟨given, same, mentions⟩ := noted filter _ _ _ ended
  rw [listed, same]
  exact Mentions.append.mpr (Or.inr mentions)

end Qdrant

namespace Output

/-- Whether an output has a parameter with a value. -/
def HasParameter (name : String) (value : Value) : Output → Prop
  | .statement compiled => compiled.parameters.get? (.text name) = some value
  | .request compiled => compiled.parameters.get? (.text name) = some value
  | .scroll compiled => compiled.parameters.get? (.text name) = some (.value value)

/-- Whether an output is without a locale, and without a notice that could say so. -/
def LosesLocale (locale : Value) (output : Output) : Prop :=
  ¬ output.HasParameter "locale" locale ∧ ¬ Mentions .unsupportedLocale output.notices ∧
    ¬ Mentions .parameterCollision output.notices

end Output

namespace Compiler

/--
A locale that a query names is sent, or a notice says that it is not, on every target. It is lost
without a trace exactly where a statement is passed another one, which is sent in its place, and no
other key that is passed through collides.
-/
theorem locale_lost_iff {compiler : Compiler} {query : Query} {output : Output} {name : String}
    (built : compiler.compileQuery query = .ok output) (located : query.locale = .text name)
    (filled : name ≠ "") :
    (output.LosesLocale (.text name) ↔
      compiler.target = .groq ∧ ¬ Mentions .parameterCollision output.notices ∧
        ∃ other, query.params.get? (.text "locale") = some other ∧ other ≠ .text name) ∧
    ∀ other, compiler.target = .groq → query.params.get? (.text "locale") = some other →
      output.HasParameter "locale" other := by
  -- Only one target lets a parameter passed through go first; of the other two, one sends the
  -- locale and one tells that it cannot.
  obtain ⟨own, -, converted⟩ := conditions_of_compileQuery built
  have there := Query.isTruthy_locale located filled
  cases compiler with
  | groq settings =>
    obtain ⟨compiled, ran, rfl⟩ := exists_of_map converted
    obtain ⟨found, silent⟩ := Groq.locale_of_compile there ran
    rw [located] at found
    have sent : ∀ other, query.params.get? (.text "locale") = some other →
        (Output.statement compiled).HasParameter "locale" other := by
      intro other through
      rw [Output.HasParameter, found, through, Option.some_or]
    refine ⟨⟨fun ⟨missing, _, free⟩ => ⟨rfl, free, ?_⟩, fun ⟨_, free, other, through, apart⟩ =>
      ⟨fun kept => apart ?_, silent, free⟩⟩, fun other _ => sent other⟩
    · -- The locale can only be missing where something was found in its place.
      cases through : query.params.get? (.text "locale") with
      | none =>
        rw [through, Option.none_or] at found
        exact absurd found missing
      | some other =>
        exact ⟨other, rfl, fun same => missing (same ▸ sent other through)⟩
    · exact Option.some.inj ((sent other through).symm.trans kept)
  | contentful settings everyLocale =>
    obtain ⟨compiled, ran, rfl⟩ := exists_of_map converted
    have found := Contentful.locale_of_compile there ran
    rw [located] at found
    exact ⟨iff_of_false (fun lost => lost.1 found) (fun replaced => nomatch replaced.1), nofun⟩
  | qdrant configuration =>
    obtain ⟨compiled, ran, rfl⟩ := exists_of_map converted
    have noted := Qdrant.locale_of_compile there ran
    exact ⟨iff_of_false (fun lost => lost.2.1 noted) (fun replaced => nomatch replaced.1), nofun⟩

/-- A query in one language that is passed a locale. -/
def relocatedQuery (given : String) : Query :=
  { Query.everything with
    locale := .text "de"
    params := .ofList [(.text "locale", .text given)] }

/-- A statement keeps the locale where the same one is passed through, and a request keeps it where
another one is. -/
theorem locale_lost_iff_relocated :
    (∃ output, (groq Settings.standard).compileQuery (relocatedQuery "de") = .ok output ∧
      ¬ output.LosesLocale (.text "de")) ∧
    ∃ output, (contentful Settings.standard (.bool false)).compileQuery (relocatedQuery "en") =
      .ok output ∧ ¬ output.LosesLocale (.text "de") := by
  -- Neither is lost: the one is passed through as it is, and the other wins.
  have kept : ∃ output, (groq Settings.standard).compileQuery (relocatedQuery "de") =
      .ok output := ⟨_, rfl⟩
  have kept' : ∃ output, (contentful Settings.standard (.bool false)).compileQuery
      (relocatedQuery "en") = .ok output := ⟨_, rfl⟩
  obtain ⟨output, built⟩ := kept
  obtain ⟨output', built'⟩ := kept'
  have located (given : String) : (relocatedQuery given).locale = .text "de" := rfl
  have lost_iff := (locale_lost_iff built (located "de") (by decide)).1
  have lost_iff' := (locale_lost_iff built' (located "en") (by decide)).1
  refine ⟨⟨output, built, fun lost => ?_⟩, output', built', fun lost => ?_⟩
  · -- What is passed through is the locale itself.
    obtain ⟨-, -, other, through, apart⟩ := lost_iff.mp lost
    exact apart (Option.some.inj through).symm
  · exact absurd (lost_iff'.mp lost).1 nofun

/-- A statement that is passed another locale has that one, and no notice at all. -/
theorem locale_replaced_silently :
    ∃ compiled, (groq Settings.standard).compileQuery (relocatedQuery "en") =
        .ok (.statement compiled) ∧
      compiled.parameters.get? (.text "locale") = some (.text "en") ∧ compiled.notices = [] :=
  ⟨_, rfl, rfl, rfl⟩

end Compiler

end ContentQuery
