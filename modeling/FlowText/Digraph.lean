import FlowText.Error

/-!
# Directed graphs

A graph is its nodes and its edges, each in the order of addition; edges lead between nodes of the
graph. Several edges may lead from one node to another.

* `addNode`, `addEdge` — the only ways to grow.
* `successors`, `predecessors`, `outgoing` — neighbours, in the order in which edges were added.
* `edge?`, `findEdge?` — a given edge, and the first edge between two nodes.
-/

namespace FlowText

/-- An edge with what it carries. -/
structure Edge (ε : Type) where
  source : NodeId
  target : NodeId
  data : ε
  deriving DecidableEq, Repr

/-- Where an edge leaves and where it leads. -/
def Edge.ends {ε : Type} (e : Edge ε) : NodeId × NodeId := (e.source, e.target)

/-- A directed graph whose nodes and edges carry data. -/
structure Digraph (ν ε : Type) where
  /-- what the nodes carry -/
  nodes : Array ν := #[]
  edges : Array (Edge ε) := #[]
  /-- every edge leaves a node of the graph -/
  source_lt : ∀ e ∈ edges, e.source.index < nodes.size := by simp
  /-- every edge leads to a node of the graph -/
  target_lt : ∀ e ∈ edges, e.target.index < nodes.size := by simp
  deriving DecidableEq, Repr

namespace Digraph

variable {ν ε : Type}

/-- The number of nodes. -/
def nodeCount (g : Digraph ν ε) : Nat := g.nodes.size

/-- The number of edges. -/
def edgeCount (g : Digraph ν ε) : Nat := g.edges.size

/-- The graph has no node. -/
def isEmpty (g : Digraph ν ε) : Bool := g.nodes.isEmpty

/-- The nodes, in the order of addition. -/
def nodeIds (g : Digraph ν ε) : List NodeId := (List.range g.nodeCount).map NodeId.mk

/-- What a node carries. -/
def node? (g : Digraph ν ε) (v : NodeId) : Option ν := g.nodes[v.index]?

/-- The nodes with what they carry, in the order of addition. -/
def nodeList (g : Digraph ν ε) : List (NodeId × ν) :=
  g.nodes.toList.zipIdx.map fun (data, i) => (⟨i⟩, data)

/-- Adds a node. -/
def addNode (g : Digraph ν ε) (data : ν) : NodeId × Digraph ν ε :=
  (⟨g.nodes.size⟩,
    { g with
      nodes := g.nodes.push data
      source_lt := fun e he => by
        rw [Array.size_push]; exact Nat.lt_succ_of_lt (g.source_lt e he)
      target_lt := fun e he => by
        rw [Array.size_push]; exact Nat.lt_succ_of_lt (g.target_lt e he) })

/-- Adds an edge between two nodes that are known to be in the graph. -/
def connect (g : Digraph ν ε) (source target : NodeId) (data : ε)
    (hs : source.index < g.nodes.size) (ht : target.index < g.nodes.size) :
    EdgeId × Digraph ν ε :=
  (⟨g.edges.size⟩,
    { g with
      edges := g.edges.push ⟨source, target, data⟩
      source_lt := fun e he => by
        rcases Array.mem_push.1 he with he | rfl
        · exact g.source_lt e he
        · exact hs
      target_lt := fun e he => by
        rcases Array.mem_push.1 he with he | rfl
        · exact g.target_lt e he
        · exact ht })

/-- **Add edge.** Both ends have to be nodes of the graph; the source is checked first. -/
def addEdge (g : Digraph ν ε) (source target : NodeId) (data : ε) :
    Except GraphError (EdgeId × Digraph ν ε) :=
  if hs : source.index < g.nodes.size then
    if ht : target.index < g.nodes.size then .ok (g.connect source target data hs ht)
    else .error (.noTarget target g.nodeCount)
  else .error (.noSource source g.nodeCount)

/-- Changes what a node carries. -/
def modifyNode (g : Digraph ν ε) (v : NodeId) (f : ν → ν) : Digraph ν ε :=
  { g with
    nodes := g.nodes.modify v.index f
    source_lt := by simpa using g.source_lt
    target_lt := by simpa using g.target_lt }

/-- Changes what every node carries. -/
def mapNodes (g : Digraph ν ε) (f : ν → ν) : Digraph ν ε :=
  { g with
    nodes := g.nodes.map f
    source_lt := by simpa using g.source_lt
    target_lt := by simpa using g.target_lt }

theorem source_of_mem_modify {edges : Array (Edge ε)} {i : Nat} {f : ε → ε} {e : Edge ε}
    (h : e ∈ edges.modify i fun e => { e with data := f e.data }) :
    ∃ e' ∈ edges, e'.source = e.source ∧ e'.target = e.target := by
  obtain ⟨j, hj, rfl⟩ := Array.mem_iff_getElem.1 h
  rw [Array.size_modify] at hj
  refine ⟨edges[j], Array.getElem_mem hj, ?_⟩
  rw [Array.getElem_modify]
  split <;> exact ⟨rfl, rfl⟩

/-- Changes what an edge carries. -/
def modifyEdge (g : Digraph ν ε) (e : EdgeId) (f : ε → ε) : Digraph ν ε :=
  { g with
    edges := g.edges.modify e.index fun e => { e with data := f e.data }
    source_lt := fun e he => by
      obtain ⟨e', he', hs, _⟩ := source_of_mem_modify he
      exact hs ▸ g.source_lt e' he'
    target_lt := fun e he => by
      obtain ⟨e', he', _, ht⟩ := source_of_mem_modify he
      exact ht ▸ g.target_lt e' he' }

/-- What an edge carries. -/
def edge? (g : Digraph ν ε) (e : EdgeId) : Option ε := g.edges[e.index]?.map Edge.data

/-- Where an edge leaves and where it leads. -/
def endpoints? (g : Digraph ν ε) (e : EdgeId) : Option (NodeId × NodeId) :=
  g.edges[e.index]?.map Edge.ends

/-- The first edge from one node to another. -/
def findEdge? (g : Digraph ν ε) (source target : NodeId) : Option EdgeId :=
  (g.edges.findIdx? fun e => e.ends == (source, target)).map EdgeId.mk

/-- Where the edges of a node lead, in the order of addition. -/
def successors (g : Digraph ν ε) (v : NodeId) : List NodeId :=
  (g.edges.toList.filter (·.source == v)).map Edge.target

/-- Where the edges to a node come from, in the order of addition. -/
def predecessors (g : Digraph ν ε) (v : NodeId) : List NodeId :=
  (g.edges.toList.filter (·.target == v)).map Edge.source

/-- The edges that leave a node with what they carry, in the order of addition. -/
def outgoing (g : Digraph ν ε) (v : NodeId) : List (EdgeId × ε) :=
  (g.edges.toList.zipIdx.filter fun (e, _) => e.source == v).map fun (e, i) => (⟨i⟩, e.data)

/-- An edge leads to a node of the graph. -/
theorem lt_of_mem_successors {g : Digraph ν ε} {v w : NodeId} (h : w ∈ g.successors v) :
    w.index < g.nodeCount := by
  obtain ⟨e, he, rfl⟩ := List.mem_map.1 h
  exact g.target_lt e (Array.mem_def.2 (List.mem_filter.1 he).1)

end Digraph

end FlowText
