import ContentQuery.Proofs.ProjectionDepth
import ContentQuery.Proofs.ReferenceDepth

/-! System fields are delivered whatever a projection names, but where a scroll excludes them. -/

namespace ContentQuery

open scoped List

namespace Projection

variable {limit : DepthLimit} {depth : Nat} {position : Position} {context after : Context}

/-- What is read under an output name has that name, and excludes it where the value is false. -/
theorem field_of_readField {name : String} {value : Value} {field : Option Projection}
    (plain : (outlineField value).isPlain = true)
    (ran : readField limit depth position name value context = .ok (field, after)) :
    (∀ item ∈ field, item.name = .text name) ∧
      (field = some (.excluded (.text name)) ↔ value = .bool false) := by
  -- Where something is given, it is one item: its name and its kind decide both parts.
  have shown (item : Projection) (named : item.name = .text name)
      (alike : item = .excluded (.text name) ↔ value = .bool false) (same : field = some item) :
      (∀ item ∈ field, item.name = .text name) ∧
        (field = some (.excluded (.text name)) ↔ value = .bool false) := by
    subst same
    exact ⟨fun _ there => Option.some.inj there ▸ named, Option.some_inj.trans alike⟩
  have given {result : Option Projection} {between : Context}
      (ran : (pure result : Compile (Option Projection)) between = .ok (field, after)) :
      field = result := (Prod.mk.inj (Except.ok.inj ran)).1.symm
  cases value with
  | bool flag =>
    cases flag with
    | true => exact shown (.included (.text name)) rfl (iff_of_false nofun nofun) (given ran)
    | false => exact shown (.excluded (.text name)) rfl (iff_of_true rfl rfl) (given ran)
  | text path => exact shown (.alias (.text name) _) rfl (iff_of_false nofun nofun) (given ran)
  | projection item => exact nomatch plain
  | map entries =>
    unfold readField at ran
    -- Whatever the entries ask for, the name is that of the field, and nothing is excluded.
    cases function : firstOf functionKeys entries with
    | some _ =>
      simp only [function] at ran
      replace ran := (Compile.ok_of_requireWritten ran).2
      exact shown (.computed (.text name) _ _) rfl (iff_of_false nofun nofun) (given ran)
    | none =>
      cases expansion : firstOf expansionKeys entries with
      | some wanted =>
        simp only [function, expansion] at ran
        split at ran
        · exact shown (.included (.text name)) rfl (iff_of_false nofun nofun) (given ran)
        · split at ran
          · exact shown (.resolved (.text name)) rfl (iff_of_false nofun nofun) (given ran)
          · obtain ⟨fields, _, -, ran⟩ := Compile.ok_of_bind ran
            exact shown (.expanded (.text name) _) rfl (iff_of_false nofun nofun) (given ran)
      | none =>
        simp only [function, expansion] at ran
        split at ran
        · exact shown (.included (.text name)) rfl (iff_of_false nofun nofun) (given ran)
        · obtain ⟨_, _, -, ran⟩ := Compile.ok_of_bind ran
          obtain ⟨fields, _, -, ran⟩ := Compile.ok_of_bind ran
          exact shown (.nested (.text name) _) rfl (iff_of_false nofun nofun) (given ran)
  | _ =>
    -- Any other value is noted and gives nothing.
    obtain rfl : field = none := by
      obtain ⟨_, _, -, ran⟩ := Compile.ok_of_bind ran
      exact given ran
    exact ⟨nofun, iff_of_false nofun nofun⟩

/-- Fields have the names of entries in order, and exclude those whose value is false. -/
theorem fields_of_readEntries {entries : List (Value × Value)} {fields : List Projection}
    (plain : Outline.arePlain (outlineEntries entries) = true)
    (ran : readEntries limit depth position entries context = .ok (fields, after)) :
    fields.map name <+ entries.map Prod.fst ∧ ∀ field, field.isEmpty = false →
      (.excluded (.text field) ∈ fields ↔ (.text field, .bool false) ∈ entries) := by
  induction entries generalizing fields context after with
  | nil =>
    cases ran
    exact ⟨.slnil, fun _ _ => iff_of_false List.not_mem_nil List.not_mem_nil⟩
  | cons entry rest ih =>
    obtain ⟨key, value⟩ := entry
    rw [readEntries_cons] at ran
    obtain ⟨field, between, began, ran⟩ := Compile.ok_of_bind ran
    obtain ⟨others, _, ended, ran⟩ := Compile.ok_of_bind ran
    obtain rfl : fields = field.toList ++ others := (Prod.mk.inj (Except.ok.inj ran)).1.symm
    obtain ⟨here, later⟩ := Bool.and_eq_true_iff.mp plain
    obtain ⟨sublist, excluded⟩ := ih later ended
    cases output : outputName? key with
    | none =>
      -- A key that is no output name gives no field.
      rw [output] at began
      obtain ⟨_, _, -, gave⟩ := Compile.ok_of_bind began
      obtain rfl : field = none := (Prod.mk.inj (Except.ok.inj gave)).1.symm
      refine ⟨sublist.cons _, fun field filled => (excluded field filled).trans ?_⟩
      refine ⟨List.mem_cons_of_mem _, fun member => (List.mem_cons.mp member).resolve_left ?_⟩
      intro same
      rw [← (Prod.mk.inj same).1, outputName?, if_neg (by simp [filled])] at output
      cases output
    | some name =>
      -- An output name is the text that its key is.
      obtain rfl : key = .text name := by
        cases key <;> simp_all [outputName?]
      rw [output] at began here
      obtain ⟨named, alone⟩ := field_of_readField here began
      refine ⟨?_, fun other filled => ?_⟩
      · cases field with
        | none => exact sublist.cons _
        | some item =>
          show item.name :: others.map Projection.name <+ _
          rw [named item rfl]
          exact sublist.cons_cons _
      · rw [List.mem_append, Option.mem_toList, List.mem_cons, excluded other filled]
        -- The field of this entry excludes the name exactly where this entry maps it to false.
        refine or_congr_left ⟨fun there => ?_, fun same => ?_⟩
        · have alike : Value.text other = .text name := named _ there
          rw [alike] at there ⊢
          rw [alone.mp there]
        · obtain ⟨alike, falsity⟩ := Prod.mk.inj same
          rw [alike]
          exact alone.mpr falsity.symm

/-- So have the fields that a map is read to at the top. -/
theorem fields_of_readTop {entries : List (Value × Value)} {fields : List Projection}
    (plain : Outline.arePlain (outlineEntries entries) = true)
    (ran : readTop limit (.map entries) context = .ok (fields, after)) :
    fields.map name <+ entries.map Prod.fst ∧ ∀ field, field.isEmpty = false →
      (.excluded (.text field) ∈ fields ↔ (.text field, .bool false) ∈ entries) := by
  -- The projection has entries or is empty, and then there is nothing to read.
  unfold readTop read at ran
  split at ran
  · rename_i empty
    obtain rfl := List.isEmpty_iff.mp empty
    cases ran
    exact ⟨.slnil, fun _ _ => iff_of_false List.not_mem_nil List.not_mem_nil⟩
  · obtain ⟨_, _, -, ran⟩ := Compile.ok_of_bind ran
    exact fields_of_readEntries plain ran

end Projection

namespace Groq

section Keys

variable {attributes : List Attribute} (formed : ∀ head ∈ attributes, head.WellFormed)
  (keyed : ∀ head ∈ attributes, head.HasTextKeys)

/-- No system field ends in a line break. -/
theorem systemField_ne_append {field name : String} (system : field ∈ systemFields) :
    field ≠ name ++ "\n" := by
  -- There are four, and each of them ends in a letter.
  have unbroken : ∀ field ∈ systemFields, field.toList.getLast? ≠ some '\n' := by decide
  rintro rfl
  refine unbroken _ system ?_
  rw [String.toList_append]
  exact List.getLast?_concat

/-- A system field that is named is looked up among the keys. -/
theorem contains_text {keys : List Value} {field : String} :
    keys.contains (.text field) = true ↔ .text field ∈ keys := by
  -- A text equals texts only.
  rw [List.contains_iff_exists_mem_beq]
  refine ⟨fun ⟨key, member, same⟩ => ?_, fun member => ⟨_, member, ?_⟩⟩
  · rw [((Value.isDiscrete_text field).right key).mp same] at member
    exact member
  · exact ((Value.isDiscrete_text field).left _).mpr rfl

/-- Every system field is the key of an attribute that is delivered. -/
theorem exists_key_delivered (attributes : List Attribute) {field : String}
    (system : field ∈ systemFields) : ∃ head ∈ delivered attributes, head.key = .text field := by
  -- A projection that does not name it has it written in front.
  by_cases named : .text field ∈ attributes.map Attribute.key
  · obtain ⟨head, member, same⟩ := List.mem_map.mp named
    exact ⟨head, List.mem_append_right _ member, same⟩
  · refine ⟨.plain field, List.mem_append_left _ (List.mem_map_of_mem ?_), rfl⟩
    refine List.mem_filter.mpr ⟨system, ?_⟩
    rw [Bool.not_eq_true', Bool.eq_false_iff]
    exact mt contains_text.mp named

/-- Where no two attributes have the same key, no two that are delivered have. -/
theorem nodup_delivered (different : (attributes.map Attribute.key).Nodup) :
    ((delivered attributes).map Attribute.key).Nodup := by
  -- The system fields are different, and so are the keys of the attributes.
  rw [delivered, List.map_append, List.map_map]
  refine List.nodup_append.mpr ⟨?_, different, ?_⟩
  · have once : systemFields.Nodup := by decide
    exact List.Pairwise.map _ (fun _ _ apart same => apart (Value.text.inj same)) (once.filter _)
  · -- A system field is only written in front of the attributes where none of them has its name.
    rintro key there other own rfl
    obtain ⟨field, kept, rfl⟩ := List.mem_map.mp there
    have absent := (List.mem_filter.mp kept).2
    rw [contains_text.mpr own] at absent
    cases absent

include formed keyed

/-- The key of an attribute is read as it is where it is a system field. -/
theorem entry_key_of_key {field : String} (system : field ∈ systemFields) {head : Attribute}
    (member : head ∈ delivered attributes) (same : head.key = .text field) :
    head.entry.key = field := by
  -- A key is read as it is but for a line break, which no system field has.
  rcases key_entry (wellFormed_delivered formed head member)
    (hasTextKeys_delivered keyed head member) with plain | broken
  · exact Value.text.inj (plain.symm.trans same)
  · exact absurd (Value.text.inj (same.symm.trans broken)) (systemField_ne_append system)

/-- What is read as a system field is the key of its attribute, or ends in a line break there. -/
theorem key_of_entry_key {head : Attribute} (member : head ∈ delivered attributes)
    (unbroken : .text (head.entry.key ++ "\n") ∉ attributes.map Attribute.key) :
    head.key = .text head.entry.key := by
  refine (key_entry (wellFormed_delivered formed head member)
    (hasTextKeys_delivered keyed head member)).resolve_right fun broken => ?_
  -- What ends in a line break is the key of no attribute here, and is no system field either.
  rcases mem_delivered member with own | ⟨field, among, rfl⟩
  · exact unbroken (broken ▸ List.mem_map_of_mem own)
  · exact systemField_ne_append among (Value.text.inj broken)

/--
A projection is read with every system field as a key. Each is read once, but for a name that is a
system field with a line break behind it.
-/
theorem keys_projectionText (different : (attributes.map Attribute.key).Nodup) :
    ∃ read, readProjection (projectionText attributes) = some read ∧
      ∀ field ∈ systemFields, field ∈ read.map Entry.key ∧
        (.text (field ++ "\n") ∉ attributes.map Attribute.key →
          (read.map Entry.key).count field = 1) := by
  refine ⟨_, readProjection_projectionText formed keyed, fun field system => ?_⟩
  rw [List.map_map]
  have there : field ∈ (delivered attributes).map (Entry.key ∘ Attribute.entry) := by
    obtain ⟨head, member, same⟩ := exists_key_delivered attributes system
    exact List.mem_map.mpr ⟨head, member, entry_key_of_key formed keyed system member same⟩
  refine ⟨there, fun unbroken => Nat.le_antisymm (Nat.le_of_not_lt fun twice => ?_)
    (List.count_pos_iff.mpr there)⟩
  -- Two entries under the field would be those of two attributes with the same key.
  obtain ⟨heads, among, same⟩ := List.sublist_map_iff.mp (List.replicate_sublist_iff.mpr twice)
  have pair : heads.length = 2 := by simpa using (congrArg List.length same).symm
  obtain ⟨first, second, rfl⟩ := List.length_eq_two.mp pair
  have named (head : Attribute) (member : head ∈ [first, second])
      (read : field = head.entry.key) : head.key = .text field := by
    subst read
    exact key_of_entry_key formed keyed (among.subset member) unbroken
  obtain ⟨here, later⟩ := List.cons.inj same
  have apart := (nodup_delivered different).sublist (among.map Attribute.key)
  rw [List.map_cons, List.map_singleton, named first (by simp) here,
    named second (by simp) (List.cons.inj later).1] at apart
  simp at apart

end Keys

end Groq

namespace Output

/--
Whether an output delivers the system fields, as far as a projection with certain entries leaves it
to: every one as an output key, first in a selection, or in the payload unless it is excluded there.
-/
def DeliversSystemFields (entries : List (Value × Value)) : Output → Prop
  | .statement compiled => ∃ attributes read, compiled.query.projection = some attributes ∧
      Groq.readProjection (Groq.projectionText attributes) = some read ∧
        ∀ field ∈ Groq.systemFields, field ∈ read.map Groq.Entry.key ∧
          (.text (field ++ "\n") ∉ entries.map Prod.fst →
            (read.map Groq.Entry.key).count field = 1)
  | .request compiled => ∃ added,
      compiled.parameters.get? (.text "select") =
        some (.text (",".intercalate ("sys" :: added)))
  | .scroll compiled => ∃ selector,
      compiled.parameters.get? (.text "with_payload") = some selector ∧
        ∀ field ∈ Qdrant.rootFields, selector.Withholds field ↔
          selector.IsExcluding ∧ (.text field, .bool false) ∈ entries

end Output

namespace Compiler

/-- A parameter that was compiled is not changed by those that are passed through. -/
theorem get?_of_compiled {Argument : Type} {taken : Value → Bool} {wrap : Value → Argument}
    {own : OrderedMap Value Argument} {name : String} {value : Argument}
    (there : own.get? (.text name) = some value) (entries : List (Value × Value)) :
    (passed taken wrap entries own).get? (.text name) = some value := by
  rw [get?_passed _ _ (Value.isDiscrete_text name), there, Option.some_or]

/--
The system fields are delivered for every mapping of plain values. On one target they can be
withheld, by nothing but their exclusion in a projection that includes no key.
-/
theorem system_fields_delivered {compiler : Compiler} {query : Query} {output : Output}
    {entries : List (Value × Value)} (built : compiler.compileQuery query = .ok output)
    (mapped : query.projection = .map entries)
    (plain : Projection.Outline.arePlain (Projection.outlineEntries entries) = true)
    (distinct : (entries.map Prod.fst).Nodup) : output.DeliversSystemFields entries := by
  obtain ⟨own, -, converted⟩ := conditions_of_compileQuery built
  have there : query.projection.isNull = false := by rw [mapped]; rfl
  -- The fields of the projection are read from its entries, and have their names.
  have entriesOf {settings : Settings} {fields : List Projection}
      (reads : Projection.ReadsTo settings.depthLimit query.projection fields) :
      Projection.areNamed (fun _ => true) fields = true ∧
        fields.map Projection.name <+ entries.map Prod.fst ∧ ∀ field, field.isEmpty = false →
          (.excluded (.text field) ∈ fields ↔ (.text field, .bool false) ∈ entries) := by
    obtain ⟨after, ran⟩ := reads
    rw [mapped] at ran
    exact ⟨(Projection.matches_of_readTop ran).named plain, Projection.fields_of_readTop plain ran⟩
  cases compiler with
  | groq settings =>
    -- The keys that are read are those of the attributes, hence of the entries of the projection.
    obtain ⟨compiled, ran, rfl⟩ := exists_of_map converted
    obtain ⟨fields, attributes, reads, some_⟩ := Groq.reads_of_compile ran there
    obtain ⟨named, fromEntries, -⟩ := entriesOf reads
    obtain ⟨formed, keyed, fromFields⟩ := Groq.legible_of_compile ran reads named some_
    have sublist := fromFields.trans fromEntries
    obtain ⟨read, whole, keys⟩ :=
      Groq.keys_projectionText formed keyed (distinct.sublist sublist)
    refine ⟨attributes, read, some_, whole, fun field system => ?_⟩
    exact ⟨(keys field system).1,
      fun unbroken => (keys field system).2 fun among => unbroken (sublist.subset among)⟩
  | contentful settings everyLocale =>
    obtain ⟨compiled, ran, rfl⟩ := exists_of_map converted
    -- A selection always starts with them, and no parameter that is passed through replaces it.
    obtain ⟨sent, held, through⟩ := Contentful.options_of_compile ran
    obtain ⟨added, selected⟩ := held.selects there
    refine ⟨added, ?_⟩
    rw [through]
    exact get?_of_compiled selected _
  | qdrant configuration =>
    obtain ⟨compiled, ran, rfl⟩ := exists_of_map converted
    -- A selector withholds a field at the root where the fields, hence the entries, exclude it.
    obtain ⟨fields, reads⟩ := Qdrant.reads_of_compile ran there
    obtain ⟨named, -, excluded⟩ := entriesOf reads
    obtain ⟨sent, held, through⟩ := Qdrant.options_of_compile reads named ran
    obtain ⟨selector, chosen, selects⟩ := held.selects
    refine ⟨selector, ?_, fun field root => (selects field root).trans (and_congr_right' ?_)⟩
    · rw [through]
      exact get?_of_compiled chosen _
    · have filled : ∀ field ∈ Qdrant.rootFields, field.isEmpty = false := by decide
      exact excluded field (filled field root)

/-- Entries that name system fields in other ways than to include them, beside one that does not. -/
def systemEntries : List (Value × Value) :=
  [(.text "_id", .text "slug.current"), (.text "_type", .map [(.text "kind", .bool true)]),
    (.text "_createdAt", .bool false), (.text "body", .bool true)]

/-- A query with these entries for a projection. -/
def systemQuery : Query :=
  { Query.everything with projection := .map systemEntries }

/-- A query with these entries is compiled, and the system fields are delivered. -/
def DeliversSystem (compiler : Compiler) : Prop :=
  ∃ output, compiler.compileQuery systemQuery = .ok output ∧
    output.DeliversSystemFields systemEntries

/-- Every target delivers the system fields beside others, however they are named. -/
theorem system_fields_delivered_named :
    DeliversSystem (.groq Settings.standard) ∧
      DeliversSystem (.contentful Settings.standard (.bool false)) ∧
        DeliversSystem (.qdrant ⟨Settings.standard, .null, .text "_draft"⟩) := by
  -- The query is compiled once for each target, and the theorem tells the rest.
  have each (compiler : Compiler)
      (built : ∃ output, compiler.compileQuery systemQuery = .ok output) :
      DeliversSystem compiler := by
    obtain ⟨output, built⟩ := built
    exact ⟨output, built, system_fields_delivered built rfl (by decide) (by simp [systemEntries])⟩
  exact ⟨each _ ⟨_, rfl⟩, each _ ⟨_, rfl⟩, each _ ⟨_, rfl⟩⟩

/-- A scroll withholds a field at the root that is excluded, where no key is included. -/
theorem system_field_withheld :
    ∃ compiled keys, (Compiler.qdrant ⟨Settings.standard, .null, .text "_draft"⟩).compileQuery
        { Query.everything with
          projection := .map [(.text "_type", .bool false), (.text "body", .bool false)] } =
          .ok (.scroll compiled) ∧
      compiled.parameters.get? (.text "with_payload") = some (.excluding keys) ∧
        "_type" ∈ Qdrant.rootFields ∧ "_type" ∈ keys :=
  ⟨_, _, rfl, rfl, by decide, by decide⟩

end Compiler

end ContentQuery
