import FlowText.Block
import FlowText.Digraph.Postorder
import FlowText.Text.Natural

/-!
# Control-flow graphs

Nodes are known by their addresses, of which each occurs once, and at most one edge leads from one
node to another.

* `ensureNode`, `addBlock`, `addEdge` — a node is added when its address is first mentioned.
* `succ`, `pred`, `edgeCond?`, `block?`, `number?`, `entry?` — what can be asked; what is not there
  is no error.
* `sortedAddrs` — the addresses in natural order.
* `numberPostorder` — numbers the nodes that can be reached from the entry.
-/

namespace FlowText

/-- A node of a control-flow graph. -/
structure Node where
  /-- the address, which no other node has -/
  addr : String
  /-- the block at this address; a node that is only led to has none -/
  block : Option Block := none
  /-- the number in postorder -/
  number : Option Nat := none
  deriving DecidableEq, Repr

/-- A control-flow graph. An edge carries the condition under which it is taken, if there is one. -/
structure Cfg where
  graph : Digraph Node (Option Cond) := {}
  /-- the chosen entry -/
  chosen : Option NodeId := none
  /-- no address occurs twice -/
  addrs_nodup : (graph.nodes.toList.map Node.addr).Nodup := by simp
  /-- no edge leads where another one leads from the same node -/
  ends_nodup : (graph.edges.toList.map Edge.ends).Nodup := by simp
  /-- the chosen entry is a node of the graph -/
  chosen_lt : ∀ v ∈ chosen, v.index < graph.nodes.size := by simp
  deriving DecidableEq, Repr

namespace Cfg

/-- The number of nodes. -/
def nodeCount (g : Cfg) : Nat := g.graph.nodeCount

/-- The number of edges. -/
def edgeCount (g : Cfg) : Nat := g.graph.edgeCount

/-- The graph has no node. -/
def isEmpty (g : Cfg) : Bool := g.graph.isEmpty

/-! ### Nodes -/

/-- The node of an address. -/
def nodeId? (g : Cfg) (addr : String) : Option NodeId :=
  (g.graph.nodes.findIdx? (·.addr == addr)).map NodeId.mk

theorem lt_of_nodeId? {g : Cfg} {addr : String} {v : NodeId} (h : g.nodeId? addr = some v) :
    v.index < g.graph.nodes.size := by
  obtain ⟨i, hi, rfl⟩ := Option.map_eq_some_iff.1 h
  exact (Array.findIdx?_eq_some_iff_getElem.1 hi).1

theorem addr_not_mem_of_nodeId? {g : Cfg} {addr : String} (h : g.nodeId? addr = none) :
    addr ∉ g.graph.nodes.toList.map Node.addr := by
  rw [nodeId?, Option.map_eq_none_iff, Array.findIdx?_eq_none_iff] at h
  intro hm
  obtain ⟨n, hn, rfl⟩ := List.mem_map.1 hm
  simpa using h n (Array.mem_def.2 hn)

/-- What a node holds. -/
def nodeAt? (g : Cfg) (v : NodeId) : Option Node := g.graph.node? v

/-- What the node of an address holds. -/
def node? (g : Cfg) (addr : String) : Option Node := (g.nodeId? addr).bind g.nodeAt?

/-- The block at an address. -/
def block? (g : Cfg) (addr : String) : Option Block := (g.node? addr).bind Node.block

/-- The postorder number of an address. -/
def number? (g : Cfg) (addr : String) : Option Nat := (g.node? addr).bind Node.number

/-- The address of a node. -/
def addrAt (g : Cfg) (v : NodeId) : String := ((g.nodeAt? v).map Node.addr).getD ""

/-- **Mention.** The node of an address, which is added if there is none. -/
def ensureNode (g : Cfg) (addr : String) : NodeId × Cfg :=
  match h : g.nodeId? addr with
  | some v => (v, g)
  | none =>
    let added := g.graph.addNode { addr }
    (added.1,
      { g with
        graph := added.2
        addrs_nodup := by
          have := addr_not_mem_of_nodeId? h
          simpa [added, Digraph.addNode, List.nodup_append, g.addrs_nodup] using this
        ends_nodup := g.ends_nodup
        chosen_lt := fun v hv => by
          simpa [added, Digraph.addNode] using Nat.lt_succ_of_lt (g.chosen_lt v hv) })

theorem nodes_subset_ensureNode (g : Cfg) (addr : String) :
    g.graph.nodes.size ≤ (g.ensureNode addr).2.graph.nodes.size := by
  unfold ensureNode
  split
  · exact Nat.le_refl _
  · simp [Digraph.addNode]

theorem ensureNode_lt (g : Cfg) (addr : String) :
    (g.ensureNode addr).1.index < (g.ensureNode addr).2.graph.nodes.size := by
  unfold ensureNode
  split
  · next h => exact lt_of_nodeId? h
  · simp [Digraph.addNode]

/-- Changes a node. Its address stays. -/
def modifyNode (g : Cfg) (v : NodeId) (f : Node → Node) : Cfg :=
  { g with
    graph := g.graph.modifyNode v fun n => { f n with addr := n.addr }
    addrs_nodup := by
      have h :
          (g.graph.modifyNode v fun n => { f n with addr := n.addr }).nodes.toList.map Node.addr
          = g.graph.nodes.toList.map Node.addr := by
        refine List.ext_getElem? fun i => ?_
        simp only [Digraph.modifyNode, Array.toList_modify, List.getElem?_map, List.getElem?_modify]
        split
        · subst_vars
          cases g.graph.nodes.toList[v.index]? <;> rfl
        · simp
      rw [h]
      exact g.addrs_nodup
    ends_nodup := g.ends_nodup
    chosen_lt := by simpa [Digraph.modifyNode] using g.chosen_lt }

/-- Changes every node. The addresses stay. -/
def mapNodes (g : Cfg) (f : Node → Node) : Cfg :=
  { g with
    graph := g.graph.mapNodes fun n => { f n with addr := n.addr }
    addrs_nodup := by simpa [Digraph.mapNodes, Function.comp_def] using g.addrs_nodup
    ends_nodup := g.ends_nodup
    chosen_lt := by simpa [Digraph.mapNodes] using g.chosen_lt }

/-- Stores a block at its address, which must not have one. -/
def addBlock (g : Cfg) (b : Block) : Except GraphError (NodeId × Cfg) :=
  if (g.block? b.addr).isSome then .error (.duplicateBlock b.addr)
  else
    let (v, g) := g.ensureNode b.addr
    .ok (v, g.modifyNode v fun n => { n with block := some b })

/-- Changes the block at an address, if there is one. -/
def modifyBlock (g : Cfg) (addr : String) (f : Block → Block) : Cfg :=
  match g.nodeId? addr with
  | some v => g.modifyNode v fun n => { n with block := n.block.map f }
  | none => g

/-- Takes away the block at an address, if there is one. -/
def dropBlock (g : Cfg) (addr : String) : Cfg :=
  match g.nodeId? addr with
  | some v => g.modifyNode v fun n => { n with block := none }
  | none => g

/-- Changes every block. -/
def mapBlocks (g : Cfg) (f : Block → Block) : Cfg :=
  g.mapNodes fun n => { n with block := n.block.map f }

/-- The blocks, in the order in which their addresses were first mentioned. -/
def blocks (g : Cfg) : List Block := g.graph.nodes.toList.filterMap Node.block

/-- Sets or clears the postorder number of an address. -/
def setNumber (g : Cfg) (addr : String) (number : Option Nat) : Except GraphError Cfg :=
  match g.nodeId? addr with
  | some v => .ok (g.modifyNode v fun n => { n with number })
  | none => .error (.unknownAddr addr)

/-! ### Edges -/

/-- The edge from one address to another. -/
def edgeId? (g : Cfg) (source target : String) : Option EdgeId := do
  g.graph.findEdge? (← g.nodeId? source) (← g.nodeId? target)

theorem ends_not_mem_of_findEdge? {g : Cfg} {source target : NodeId}
    (h : g.graph.findEdge? source target = none) :
    (source, target) ∉ g.graph.edges.toList.map Edge.ends := by
  rw [Digraph.findEdge?, Option.map_eq_none_iff, Array.findIdx?_eq_none_iff] at h
  intro hm
  obtain ⟨e, he, heq⟩ := List.mem_map.1 hm
  simpa [heq] using h e (Array.mem_def.2 he)

theorem ends_modifyEdge (g : Cfg) (e : EdgeId) (f : Option Cond → Option Cond) :
    (g.graph.modifyEdge e f).edges.toList.map Edge.ends = g.graph.edges.toList.map Edge.ends := by
  refine List.ext_getElem? fun i => ?_
  simp only [Digraph.modifyEdge, Array.toList_modify, List.getElem?_map, List.getElem?_modify]
  split
  · subst_vars
    cases g.graph.edges.toList[e.index]? <;> rfl
  · simp

/-- Sets the condition of an edge. -/
def setCondAt (g : Cfg) (e : EdgeId) (cond : Option Cond) : Cfg :=
  { g with
    graph := g.graph.modifyEdge e fun _ => cond
    addrs_nodup := g.addrs_nodup
    ends_nodup := by rw [ends_modifyEdge]; exact g.ends_nodup
    chosen_lt := g.chosen_lt }

/-- **Add edge.** Addresses that are not in the graph are added. An edge that is there already keeps
its place and gets the new condition. -/
def addEdge (g : Cfg) (source target : String) (cond : Option Cond) : EdgeId × Cfg :=
  let first := g.ensureNode source
  let second := first.2.ensureNode target
  have hs : first.1.index < second.2.graph.nodes.size :=
    Nat.lt_of_lt_of_le (ensureNode_lt g source) (nodes_subset_ensureNode first.2 target)
  have ht : second.1.index < second.2.graph.nodes.size := ensureNode_lt first.2 target
  match h : second.2.graph.findEdge? first.1 second.1 with
  | some e => (e, second.2.setCondAt e cond)
  | none =>
    let added := second.2.graph.connect first.1 second.1 cond hs ht
    (added.1,
      { second.2 with
        graph := added.2
        addrs_nodup := second.2.addrs_nodup
        ends_nodup := by
          have := ends_not_mem_of_findEdge? h
          simpa [added, Digraph.connect, List.nodup_append, second.2.ends_nodup,
            Edge.ends] using this
        chosen_lt := second.2.chosen_lt })

/-- The condition of the edge from one address to another. There is none if there is no edge. -/
def edgeCond? (g : Cfg) (source target : String) : Option Cond :=
  (g.edgeId? source target).bind fun e => (g.graph.edge? e).join

/-- Sets or clears the condition of the edge from one address to another. -/
def setEdgeCond (g : Cfg) (source target : String) (cond : Option Cond) : Except GraphError Cfg :=
  match g.edgeId? source target with
  | some e => .ok (g.setCondAt e cond)
  | none => .error (.noEdge source target)

/-- The addresses that the edges of an address lead to, in the order of addition. -/
def succ (g : Cfg) (addr : String) : List String :=
  match g.nodeId? addr with
  | some v => (g.graph.successors v).map g.addrAt
  | none => []

/-- The addresses that edges to an address come from, in the order of addition. -/
def pred (g : Cfg) (addr : String) : List String :=
  match g.nodeId? addr with
  | some v => (g.graph.predecessors v).map g.addrAt
  | none => []

/-! ### Entry, order and numbers -/

/-- The entry node: the chosen one, or else the first that was added. -/
def entryId? (g : Cfg) : Option NodeId :=
  g.chosen.or (if g.isEmpty then none else some ⟨0⟩)

/-- The address of the entry. -/
def entry? (g : Cfg) : Option String := g.entryId?.map g.addrAt

/-- Makes an address the entry. -/
def setEntry (g : Cfg) (addr : String) : Except GraphError Cfg :=
  match h : g.nodeId? addr with
  | some v => .ok { g with
      chosen := some v
      chosen_lt := fun _ hw => Option.some.inj hw ▸ lt_of_nodeId? h }
  | none => .error (.unknownEntry addr)

/-- The nodes in the natural order of their addresses. -/
def sortedIds (g : Cfg) : List NodeId :=
  (sortByName (fun (_, n) => n.addr) g.graph.nodeList).map Prod.fst

/-- The addresses in natural order. -/
def sortedAddrs (g : Cfg) : List String := g.sortedIds.map g.addrAt

/-- What the nodes hold, in the natural order of their addresses. -/
def sortedNodes (g : Cfg) : List Node := g.sortedIds.filterMap g.nodeAt?

/-- Gives the nodes in a list the numbers from one, in their order, and no number to others. -/
def numberNodes (g : Cfg) (order : List NodeId) : Cfg :=
  order.zipIdx.foldl (fun g (v, i) => g.modifyNode v fun n => { n with number := some (i + 1) })
    (g.mapNodes fun n => { n with number := none })

/-- **Number.** Numbers the nodes that can be reached from the entry in postorder, and tells how
many they are. -/
def numberPostorder (g : Cfg) : Nat × Cfg :=
  let order := match g.entryId? with
    | some v => g.graph.postorder v
    | none => []
  (order.length, g.numberNodes order)

end Cfg

end FlowText
