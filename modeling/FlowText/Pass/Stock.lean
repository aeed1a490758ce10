import FlowText.Pass

/-!
# Stock passes

* `Pass.numberPostorder` — numbers the nodes that can be reached from the entry.
* `Pass.removeTrailingJumps` — takes a jump off the end of each block; its edges stay.
* `Pass.removeDead` — takes out what is marked as dead.
-/

namespace FlowText

/-- The postorder numbers of all nodes, in the order in which these were added. -/
def Cfg.numbers (g : Cfg) : List (Option Nat) := g.graph.nodes.toList.map Node.number

/-- The block without the jump at its end, if there is one. -/
def Block.dropJump? (b : Block) : Option Block :=
  match b.insts.getLast? with
  | some i => if i.op = .goto then some { b with insts := b.insts.dropLast } else none
  | none => none

namespace Pass

variable {σ : Type}

/-- Numbers the nodes that can be reached from the entry in postorder. It changes something if a
node has another number than before. -/
def numberPostorder : Pass σ where
  name := "number_postorder"
  description := "Assigns postorder DFS numbers from the entry node"
  work := .graph do
    let before ← Edit.subject
    let (count, after) := before.numberPostorder
    Edit.replace after
    Edit.log (debug s!"Numbered {count} of {after.nodeCount} nodes")
    return before.numbers != after.numbers

/-- Takes one jump off the end of a block. -/
def removeTrailingJumps : Pass σ where
  name := "remove_trailing_jumps"
  description := "Removes a goto ending a block, keeping the graph edges"
  work := .block do
    match (← Edit.subject).dropJump? with
    | some shorter => Edit.replace shorter; return true
    | none => return false

/-- Takes out all instructions that are marked as dead. -/
def removeDead : Pass σ where
  name := "remove_dead"
  description := "Deletes instructions carrying the dead annotation"
  work := .block do
    let before ← Edit.subject
    let after := before.retain fun i => !i.isDead
    Edit.replace after
    return before.insts.length != after.insts.length

end Pass

end FlowText
