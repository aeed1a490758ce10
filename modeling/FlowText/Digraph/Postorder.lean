import FlowText.Digraph

/-!
# Postorder

`Digraph.postorder` lists the nodes that can be reached from a node, each after those that were
reached from it first. The walk is a loop over a stack of visits.
-/

namespace FlowText.Digraph

variable {ν ε : Type}

/-- What is left to do at a node. -/
inductive Visit where
  /-- go on to its successors, unless it was entered before -/
  | enter (v : NodeId)
  /-- list it -/
  | leave (v : NodeId)

/-- The nodes that were not entered. -/
def unseen (g : Digraph ν ε) (seen : List NodeId) : List NodeId := g.nodeIds.filter (· ∉ seen)

theorem unseen_cons (g : Digraph ν ε) (seen : List NodeId) (v : NodeId) :
    g.unseen (v :: seen) = (g.unseen seen).filter (· ≠ v) := by
  simp [unseen, List.filter_filter]

/-- Entering a node leaves fewer nodes to enter. -/
theorem length_unseen_lt {g : Digraph ν ε} {seen : List NodeId} {v : NodeId}
    (hv : v.index < g.nodeCount) (hs : v ∉ seen) :
    (g.unseen (v :: seen)).length < (g.unseen seen).length := by
  have hmem : v ∈ g.unseen seen :=
    List.mem_filter.2 ⟨List.mem_map.2 ⟨v.index, List.mem_range.2 hv, rfl⟩, by simpa using hs⟩
  rw [unseen_cons, List.length_filter_lt_length_iff_exists]
  exact ⟨v, hmem, by simp⟩

/-- **Walk.** Works off a stack of visits, its top first, and gives the nodes in the order in which
they are left. -/
def walk (g : Digraph ν ε) (seen : List NodeId) : List Visit → List NodeId
  | [] => []
  | .leave v :: stack => v :: walk g seen stack
  | .enter v :: stack =>
    if h : v.index < g.nodeCount ∧ v ∉ seen then
      have := length_unseen_lt h.1 h.2
      walk g (v :: seen) ((g.successors v).map .enter ++ .leave v :: stack)
    else walk g seen stack
termination_by stack => ((g.unseen seen).length, stack.length)

/-- **Postorder.** The nodes that can be reached from `start`, in the order in which a walk that
follows the edges of each node in the order of addition leaves them. -/
def postorder (g : Digraph ν ε) (start : NodeId) : List NodeId := g.walk [] [.enter start]

end FlowText.Digraph
