import ContentQuery.Proofs.Compilation
import Mathlib.Data.List.Forall2

/-! Conditions without their failing nodes, and the notices that stand for these. -/

namespace ContentQuery

/-- Whether a notice says that a leaf was dropped. -/
def NamesLeaf (field : Value) (comparison : Comparison) (notice : Notice) : Prop :=
  notice.field = field ∧ notice.operator = .text comparison.word ∧
    notice.reason ∈ [.unsupportedOperator, .invalidField, .invalidValue]

namespace Condition

/-- Whether a notice says that a node was dropped; conjunctions are never dropped by themselves. -/
def Names : Condition → Notice → Prop
  | .leaf field comparison _, notice => NamesLeaf field comparison notice
  | .all _, _ => False
  | .any _, notice => notice.reason = .emptyOr ∧ notice.operator = .text Shape.any.word
  | .not _, notice => notice.reason = .matchNothing ∧ notice.operator = .text Shape.not.word

variable (failing : Condition → Bool)

/-- The node itself where it fails. -/
def ownFailure (node : Condition) : List Condition :=
  if failing node then [node] else []

mutual

/-- The failing nodes of a condition, those inside a node in front of it. -/
def failingNodes : Condition → List Condition
  | .leaf field comparison value => ownFailure failing (.leaf field comparison value)
  | .all conditions => failingNodesAll conditions ++ ownFailure failing (.all conditions)
  | .any conditions => failingNodesAll conditions ++ ownFailure failing (.any conditions)
  | .not condition => failingNodes condition ++ ownFailure failing (.not condition)
termination_by structural input => input

/-- The failing nodes of conditions, one condition after the other. -/
def failingNodesAll : List Condition → List Condition
  | [] => []
  | condition :: rest => failingNodes condition ++ failingNodesAll rest
termination_by structural input => input

end

/-- What is left of a joined condition: one that had operands goes with the last of them. -/
def rejoined (join : List Condition → Condition) (conditions left : List Condition) :
    Option Condition :=
  -- One that is given without operands means something by itself, and stays.
  if left.isEmpty && !conditions.isEmpty then none else some (join left)

mutual

/-- A condition without its failing nodes and the nodes that nothing is left of. -/
def prune : Condition → Option Condition
  | .leaf field comparison value =>
    if failing (.leaf field comparison value) then none else some (.leaf field comparison value)
  | .all conditions =>
    if failing (.all conditions) then none else rejoined .all conditions (pruneAll conditions)
  | .any conditions =>
    if failing (.any conditions) then none else rejoined .any conditions (pruneAll conditions)
  | .not condition =>
    if failing (.not condition) then none else (prune condition).map .not
termination_by structural input => input

/-- What is left of conditions. -/
def pruneAll : List Condition → List Condition
  | [] => []
  | condition :: rest => (prune condition).toList ++ pruneAll rest
termination_by structural input => input

end

/-- Failing nodes of two lists are those of the first and then those of the second. -/
theorem failingNodesAll_append (first second : List Condition) :
    failingNodesAll failing (first ++ second) =
      failingNodesAll failing first ++ failingNodesAll failing second := by
  -- By induction on the first conditions, whose nodes come before those of the second.
  induction first with
  | nil => rfl
  | cons condition rest ih => simp [failingNodesAll, ih]

/-- Two lists are pruned one after the other. -/
theorem pruneAll_append (first second : List Condition) :
    pruneAll failing (first ++ second) = pruneAll failing first ++ pruneAll failing second := by
  -- By induction on the first conditions; what is left of them comes first.
  induction first with
  | nil => rfl
  | cons condition rest ih => simp [pruneAll, ih]

end Condition

/-- A global filter without the failing nodes of its conditions. -/
def GlobalFilter.pruned (failing : Condition → Bool) : GlobalFilter → GlobalFilter
  | .raw text => .raw text
  | .conditions nodes parsed => .conditions nodes (Condition.pruneAll failing parsed)

/-- Settings whose global filter has no failing nodes. -/
def Settings.pruned (failing : Condition → Bool) (settings : Settings) : Settings :=
  { settings with globalFilter := settings.globalFilter.pruned failing }

/-- What is left of a global filter are its conditions without their failing nodes. -/
theorem GlobalFilter.conditionList_pruned (failing : Condition → Bool) (filter : GlobalFilter) :
    (filter.pruned failing).conditionList = Condition.pruneAll failing filter.conditionList := by
  cases filter <;> rfl

/-- One notice for each node, in the order of the nodes. -/
def Noted (nodes : List Condition) (notices : List Notice) : Prop :=
  List.Forall₂ Condition.Names nodes notices

namespace Noted

variable {nodes nodes' : List Condition} {notices notices' : List Notice}

theorem nil : Noted [] [] :=
  List.Forall₂.nil

theorem single {node : Condition} {notice : Notice} (names : node.Names notice) :
    Noted [node] [notice] :=
  List.Forall₂.cons names List.Forall₂.nil

/-- Notices of nodes in a row stand in the same row. -/
theorem append (first : Noted nodes notices) (second : Noted nodes' notices') :
    Noted (nodes ++ nodes') (notices ++ notices') :=
  List.rel_append first second

end Noted

end ContentQuery
