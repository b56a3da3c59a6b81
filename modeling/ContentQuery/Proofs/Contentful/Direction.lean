import ContentQuery.Proofs.Contentful.Entries
import ContentQuery.Proofs.OrderedMap

/-! The two directions in which filter maps may differ from what is asked for. -/

namespace ContentQuery.Contentful

open Compile (Ensures)

/-- Equal parameters of a map are sent as the same text. -/
def Exact (map : FilterMap) : Prop :=
  ∀ entry ∈ map.entries, entry.2.IsExact

theorem exact_empty : Exact .empty :=
  fun _ member => nomatch member

/--
What a map asks for stands to what is meant: nothing is wrongly excluded unless alternatives across
fields were narrowed, and nothing is wrongly included unless something else was noted.
-/
structure Directed (meaning : Reading → Prop) (map : FilterMap) (notices : List Notice) : Prop where
  exact_ : Exact map
  widens : (∀ notice ∈ notices, notice.reason ≠ .orAcrossFields) → ∀ reading,
    meaning reading → MapHolds reading map
  narrows : (∀ notice ∈ notices, notice.reason = .orAcrossFields) → ∀ reading,
    MapHolds reading map → meaning reading

namespace Directed

variable {meaning between : Reading → Prop} {map : FilterMap} {notices notices' : List Notice}

/-- What is lost with a notice excludes nothing. -/
theorem lost (noted : Lost notices) : Directed meaning .empty notices where
  exact_ := exact_empty
  widens := fun _ reading _ => mapHolds_empty reading
  narrows := fun only => by
    obtain ⟨notice, member, other⟩ := noted
    exact absurd (only notice member) other

/-- A map that asks for what is meant errs in no direction. -/
theorem of_iff (exact_ : Exact map) (said : ∀ reading, MapHolds reading map ↔ meaning reading) :
    Directed meaning map [] :=
  ⟨exact_, fun _ reading => (said reading).mpr, fun _ reading => (said reading).mp⟩

/-- What stands between a meaning and a map may err in the directions that were noted before. -/
theorem after (directed : Directed between map notices')
    (widens : (∀ notice ∈ notices, notice.reason ≠ .orAcrossFields) → ∀ reading,
      meaning reading → between reading)
    (narrows : (∀ notice ∈ notices, notice.reason = .orAcrossFields) → ∀ reading,
      between reading → meaning reading) : Directed meaning map (notices ++ notices') where
  exact_ := directed.exact_
  widens := fun free reading meant => by
    rw [List.forall_mem_append] at free
    exact directed.widens free.2 reading (widens free.1 reading meant)
  narrows := fun only reading held => by
    rw [List.forall_mem_append] at only
    exact narrows only.1 reading (directed.narrows only.2 reading held)

/-- Another name for the meaning changes no direction. -/
theorem congr (directed : Directed between map notices)
    (same : ∀ reading, between reading ↔ meaning reading) : Directed meaning map notices :=
  ⟨directed.exact_,
    fun free reading meant => directed.widens free reading ((same reading).mpr meant),
    fun only reading held => (same reading).mp (directed.narrows only reading held)⟩

end Directed

section Merge

variable {map : FilterMap} {key : String} {value : Parameter}

/-- A map holds after an assignment where it held before and the assigned entry does. -/
theorem mapHolds_insert {reading : Reading} (held : MapHolds reading map)
    (entry : key ≠ "content_type" → reading.Holds key value.sent) :
    MapHolds reading (map.insert key value) := by
  -- What is assigned is the new entry, or was there.
  intro other member named
  rcases OrderedMap.mem_of_assign member with rfl | member
  · exact entry named
  · exact held other member named

/-- Where an assignment changes nothing that is sent, it takes back nothing that was asked for. -/
theorem of_mapHolds_insert {reading : Reading} (exact_ : Exact map) (exact' : value.IsExact)
    (agreed : (map.get? key).any (!·.same value) = false)
    (held : MapHolds reading (map.insert key value)) :
    MapHolds reading map ∧ (key ≠ "content_type" → reading.Holds key value.sent) := by
  -- The assigned entry is in the map, whatever was there before.
  have assigned : key ≠ "content_type" → reading.Holds key value.sent :=
    held (key, value) (OrderedMap.assigned_mem key value map.entries)
  refine ⟨fun entry member named => ?_, assigned⟩
  rcases OrderedMap.mem_assign key value member with there | ⟨same, found⟩
  · exact held entry there named
  · -- The entry that gave way is sent as the one that took its place.
    have equal : entry.2.same value = true := by simpa [OrderedMap.get?, found] using agreed
    rw [Parameter.sent_of_same (exact_ entry member) exact' equal, same]
    exact assigned (same ▸ named)

/-- An assignment of an exact parameter keeps a map exact. -/
theorem exact_insert (exact_ : Exact map) (key : String) (exact' : value.IsExact) :
    Exact (map.insert key value) := by
  -- What is assigned is the new entry, or was there.
  intro entry member
  rcases OrderedMap.mem_of_assign member with rfl | member
  · exact exact'
  · exact exact_ entry member

/-- Merged parameters ask for what both maps ask for, unless a key was set to different values. -/
theorem ensures_mergeEntries {map : FilterMap} {entries : List (String × Parameter)}
    (exact_ : Exact map) (exact' : Exact ⟨entries⟩) :
    (mergeEntries entries map).Ensures (Directed fun reading =>
      MapHolds reading map ∧ MapHolds reading ⟨entries⟩) := by
  -- The map that is merged into grows, so that it is general in the induction.
  induction entries generalizing map with
  | nil => exact .pure (.of_iff exact_ fun reading => (and_iff_left (mapHolds_empty reading)).symm)
  | cons entry rest ih =>
    obtain ⟨key, value⟩ := entry
    obtain ⟨first, others⟩ := List.forall_mem_cons.mp exact'
    have merged := ih (exact_insert exact_ key first) others
    have widened {reading : Reading}
        (held : MapHolds reading map ∧ MapHolds reading ⟨(key, value) :: rest⟩) :
        MapHolds reading (map.insert key value) ∧ MapHolds reading ⟨rest⟩ := by
      obtain ⟨assigned, remaining⟩ := List.forall_mem_cons.mp held.2
      exact ⟨mapHolds_insert held.1 assigned, remaining⟩
    unfold mergeEntries
    split
    · -- A collision is noted, so that nothing is promised about what is included.
      refine .bind (ensures_noted (by decide)) fun _ notices noted =>
        merged.mono fun result notices' directed =>
          directed.after (fun _ _ => widened) fun only => ?_
      obtain ⟨notice, member, other⟩ := noted
      exact absurd (only notice member) other
    · rename_i agreed
      -- Without a collision, the assignment asks for the entry and keeps the map.
      refine merged.mono fun result notices directed => directed.congr fun reading =>
        ⟨fun held => ?_, widened⟩
      obtain ⟨before, assigned⟩ :=
        of_mapHolds_insert exact_ first (by simpa using agreed) held.1
      exact ⟨before, List.forall_mem_cons.mpr ⟨assigned, held.2⟩⟩

end Merge

end ContentQuery.Contentful
