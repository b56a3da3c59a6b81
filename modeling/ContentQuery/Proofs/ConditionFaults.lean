import ContentQuery.Proofs.FilterReading
import ContentQuery.Proofs.MalformedNodes

/-! Refused conditions: the first node in pre-order that is malformed or beyond the limit. -/

namespace ContentQuery

namespace DepthLimit

/-- Whether a limit lets pass what stands on a level. -/
def Allows (limit : DepthLimit) (level : Nat) : Prop :=
  limit.exceeded? level = some false

/-- A level is the first beyond a limit when the limit allows the levels above it, and not it. -/
structure FirstBeyond (limit : DepthLimit) (level : Nat) : Prop where
  exceeds : limit.exceeded? level = some true
  above : ∀ upper, 1 ≤ upper → upper < level → limit.Allows upper

/-- The first level beyond a number of levels is the one below them. -/
theorem FirstBeyond.eq_succ {count : Int} {level : Nat} (first : (levels count).FirstBeyond level)
    (positive : 1 ≤ level) : level = count.toNat + 1 := by
  have exceeds : count < level := by simpa [exceeded?] using first.exceeds
  by_contra other
  -- The level below the allowed ones would be another one beyond the limit.
  have allowed : (levels count).Allows (count.toNat + 1) :=
    first.above (count.toNat + 1) (by omega) (by omega)
  have within : ¬count < (count.toNat + 1 : Nat) := by simpa [Allows, exceeded?] using allowed
  omega

end DepthLimit

namespace Fault

/-- Whether a fault is one of the structure of a query. -/
def isStructural (fault : Fault) : Bool :=
  fault.family?.any (·.within .invalidFilter)

/-- A fault blames a place on a level where something is wrong with it or it lies too deep. -/
inductive Blames (limit : DepthLimit) (wrong : Value → NodeFault → Prop) (level : Nat)
    (place : Place) : Fault → Prop
  | malformed {defect : NodeFault} (is : wrong place.node defect) :
    Blames limit wrong level place (.malformed defect place.position)
  | tooDeep (first : limit.FirstBeyond level) :
    Blames limit wrong level place (.tooDeep .filter limit place.position)

/-- A fault that blames a place says where the place is. -/
theorem Blames.detail_eq {limit : DepthLimit} {wrong : Value → NodeFault → Prop} {level : Nat}
    {place : Place} {fault : Fault} (blames : fault.Blames limit wrong level place)
    (named : place.position.text.isEmpty = false) :
    fault.detail? = some (.position place.position.text) := by
  cases blames <;> exact if_neg (by rw [named]; exact nofun)

end Fault

namespace Nesting

variable {limit : DepthLimit} {level : Nat} {position : Position}

/-- What passes the check of its depth stands on a level that is allowed. -/
theorem allows_of_checkDepth (checked : Nesting.filter.checkDepth limit level position = .ok ()) :
    limit.Allows level := by
  -- The check passes in one of its three cases only.
  unfold checkDepth at checked
  split at checked
  · exact nomatch checked
  · assumption
  · exact nomatch checked

/-- What does not pass the check of its depth, where depths compare, stands beyond the limit. -/
theorem blames_of_checkDepth {wrong : Value → NodeFault → Prop} {node : Value} {fault : Fault}
    (above : ∀ upper, 1 ≤ upper → upper < level → limit.Allows upper)
    (refused : Nesting.filter.checkDepth limit level position = .error fault)
    (structural : fault.isStructural = true) : fault.Blames limit wrong level ⟨position, node⟩ := by
  -- The limit is exceeded here, and nowhere above; an unordered limit is no fault of the structure.
  unfold checkDepth at refused
  split at refused
  · rename_i exceeds
    cases refused
    exact .tooDeep ⟨exceeds, above⟩
  · exact nomatch refused
  · cases refused
    exact nomatch structural

/-- A level that is allowed joins the levels above it. -/
theorem above_succ (above : ∀ upper, 1 ≤ upper → upper < level → limit.Allows upper)
    (allowed : limit.Allows level) :
    ∀ upper, 1 ≤ upper → upper < level + 1 → limit.Allows upper := by
  -- The level below the bound is the one just allowed.
  intro upper positive bounded
  rcases Nat.lt_succ_iff_lt_or_eq.mp bounded with higher | rfl
  · exact above upper positive higher
  · exact allowed

end Nesting

namespace Place

variable {limit : DepthLimit}

/-- Nothing is wrong with the node at a place, and its level is allowed. -/
structure IsSound (limit : DepthLimit) (place : Place) : Prop where
  allowed : limit.Allows place.position.steps.length
  formed : ∀ defect, ¬NodeFault.OfNode place.node defect

end Place

/-- A fault blames the first of several places that is not sound. -/
def Fault.BlamesFirst (limit : DepthLimit) (fault : Fault) (places : List Place) : Prop :=
  ∃ before place after, places = before ++ place :: after ∧
    (∀ earlier ∈ before, earlier.IsSound limit) ∧
    fault.Blames limit NodeFault.OfNode place.position.steps.length place

/-- A reading finds all places sound, or it is refused and blames the first that is not. -/
def Surveys {α : Type} (limit : DepthLimit) (result : Except Fault α) (places : List Place) :
    Prop :=
  match result with
  | .ok _ => ∀ place ∈ places, place.IsSound limit
  | .error fault => fault.isStructural = true → fault.BlamesFirst limit places

namespace Surveys

variable {α β : Type} {limit : DepthLimit} {place : Place} {places places' : List Place}

/-- Behind a place that is sound, the first that is not is the first of the others. -/
theorem cons {result : Except Fault α} (sound : place.IsSound limit)
    (surveys : Surveys limit result places) : Surveys limit result (place :: places) := by
  -- A sound place in front only moves the blamed one further back.
  cases result with
  | ok => exact List.forall_mem_cons.mpr ⟨sound, surveys⟩
  | error fault =>
    intro structural
    obtain ⟨before, blamed, after, split, earlier, blames⟩ := surveys structural
    exact ⟨place :: before, blamed, after, by rw [split]; rfl,
      List.forall_mem_cons.mpr ⟨sound, earlier⟩, blames⟩

/-- A refusal that blames the first place blames the first that is not sound. -/
theorem refused {fault : Fault} (blames : fault.isStructural = true →
      fault.Blames limit NodeFault.OfNode place.position.steps.length place) :
    Surveys (α := α) limit (.error fault) (place :: places) :=
  fun structural => ⟨[], place, places, rfl, nofun, blames structural⟩

/-- What is made of a result surveys what the result does. -/
theorem map {result : Except Fault α} (make : α → β) (surveys : Surveys limit result places) :
    Surveys limit (do return make (← result)) places := by
  cases result with
  | ok => exact surveys
  | error => exact surveys

/-- Two readings in a row survey the places of both. -/
theorem bind {result : Except Fault α} {next : α → Except Fault β}
    (first : Surveys limit result places) (second : ∀ given, Surveys limit (next given) places') :
    Surveys limit (result >>= next) (places ++ places') := by
  cases result with
  | error fault =>
    intro structural
    obtain ⟨before, blamed, after, split, earlier, blames⟩ := first structural
    exact ⟨before, blamed, after ++ places', by rw [split, List.append_assoc]; rfl, earlier, blames⟩
  | ok given =>
    show Surveys limit (next given) (places ++ places')
    have behind := second given
    -- The places of the first reading are all sound, so that the second one decides.
    have all_sound : ∀ place ∈ places, place.IsSound limit := first
    clear first second
    induction places with
    | nil => exact behind
    | cons place rest ih =>
      obtain ⟨sound, others⟩ := List.forall_mem_cons.mp all_sound
      exact cons sound (ih others)

end Surveys

namespace Condition

open Place

variable {limit : DepthLimit}

-- By induction on what is read. The levels above the one that is read are all allowed, so that the
-- first one that is not is the first beyond the limit.
mutual

/-- Reading a node surveys the node and all below it. -/
theorem surveys_read (value : Value) {level : Nat} {position : Position}
    (counted : position.steps.length = level)
    (above : ∀ upper, 1 ≤ upper → upper < level → limit.Allows upper) :
    Surveys limit (read limit level position value) (preorder position value) := by
  subst counted
  cases value with
  | node field relation value conjuncts disjuncts negated =>
    unfold read preorder
    cases checked : Nesting.filter.checkDepth limit position.steps.length position with
    | error fault => exact .refused (Nesting.blames_of_checkDepth above checked)
    | ok _ =>
      have allowed := Nesting.allows_of_checkDepth checked
      have reached := Nesting.above_succ above allowed
      let node : Node := ⟨field, relation, value, conjuncts, disjuncts, negated⟩
      show Surveys limit (node.shapeAt position >>= _) (⟨position, node.toValue⟩ :: _)
      cases shaped : node.shapeAt position with
      | error fault =>
        obtain ⟨defect, refused, rfl⟩ := Node.exists_of_shapeAt shaped
        exact .refused fun _ => .malformed (.misshapen (Node.misshapes_of_shape refused))
      | ok shape =>
        obtain ⟨alone, sound⟩ := Node.shapeAt_ok.mp shaped
        have formed : ∀ defect, ¬NodeFault.OfNode node.toValue defect := fun defect wrong =>
          Node.not_misshapes_of_shapes alone sound (Node.misshapes_of_ofNode wrong)
        refine .cons ⟨allowed, formed⟩ ?_
        -- The combinators that the shape does not name are null, and nothing is below them.
        have noAll := fun apart => preorderWithin_null
          (Node.isNull_of_alone Node.all_mem_shapes alone apart) position .all
        have noAny := fun apart => preorderWithin_null
          (Node.isNull_of_alone Node.any_mem_shapes alone apart) position .any
        have noNegated := fun apart => Node.isNull_of_alone Node.not_mem_shapes alone apart
        cases shape with
        | leaf =>
          rw [noAll nofun, noAny nofun, if_pos (noNegated nofun)]
          exact nofun
        | all =>
          rw [noAny nofun, if_pos (noNegated nofun), List.append_nil, List.append_nil]
          exact (surveys_readChildren conjuncts rfl reached).map _
        | any =>
          rw [noAll nofun, if_pos (noNegated nofun), List.append_nil, List.nil_append]
          exact (surveys_readChildren disjuncts rfl reached).map _
        | not =>
          have there := Node.not_mem_shapes.mp (by rw [alone]; exact List.mem_singleton_self _)
          rw [noAll nofun, noAny nofun, if_neg (by rw [there]; exact Bool.false_ne_true)]
          exact (surveys_read negated (position.length_down _) reached).map _
  | _ =>
    unfold read preorder
    cases checked : Nesting.filter.checkDepth limit position.steps.length position with
    | error fault => exact .refused (Nesting.blames_of_checkDepth above checked)
    | ok _ => exact .refused fun _ => .malformed (.notNode rfl)
termination_by structural value

/-- Reading the children of a node surveys them and all below them. -/
theorem surveys_readChildren (children : Value) {level : Nat} {position : Position}
    {step : Nat → Step} (counted : position.steps.length + 1 = level)
    (above : ∀ upper, 1 ≤ upper → upper < level → limit.Allows upper) :
    Surveys limit (readChildren limit level position step children)
      (preorderWithin position step children) := by
  -- Anything but a list or a tuple is refused, though not for the structure.
  cases children with
  | list items => exact surveys_readItems items counted above
  | tuple items => exact surveys_readItems items counted above
  | _ => exact fun structural => absurd structural (by decide)
termination_by structural children

/-- Reading nodes one after the other surveys them and all below them. -/
theorem surveys_readItems (items : List Value) {level : Nat} {position : Position}
    {step : Nat → Step} {index : Nat} (counted : position.steps.length + 1 = level)
    (above : ∀ upper, 1 ≤ upper → upper < level → limit.Allows upper) :
    Surveys limit (readItems limit level position step index items)
      (preorderAmong position step index items) := by
  -- By induction on the items, which are surveyed in the order in which they are read.
  match items with
  | [] => exact nofun
  | item :: rest =>
    have deeper := (position.length_down (step index)).trans counted
    exact (surveys_read item deeper above).bind fun _ =>
      (surveys_readItems rest counted above).map _
termination_by structural items

end

end Condition

end ContentQuery
