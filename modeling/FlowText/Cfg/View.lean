import FlowText.Cfg

/-!
# Views of a graph

What a dump needs to know of a graph. Anything that answers these questions can be dumped.
-/

namespace FlowText

/-- The questions that a dump asks. What is not there is no error. -/
structure View where
  /-- the addresses, in the order in which they are dumped -/
  addrs : List String
  /-- the block at an address -/
  block? : String → Option Block
  /-- the postorder number of an address -/
  number? : String → Option Nat
  /-- where edges to an address come from -/
  pred : String → List String
  /-- where the edges of an address lead, in the order in which they are dumped -/
  succ : String → List String
  /-- the condition of the edge between two addresses -/
  edgeCond? : String → String → Option Cond

/-- The view of a graph, with its addresses in natural order. -/
def Cfg.view (g : Cfg) : View where
  addrs := g.sortedAddrs
  block? := g.block?
  number? := g.number?
  pred := g.pred
  succ := g.succ
  edgeCond? := g.edgeCond?

end FlowText
