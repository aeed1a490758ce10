import FlowText.Keyed
import FlowText.Proofs.Adjacency
import FlowText.Proofs.BuiltMap
import FlowText.Proofs.PostorderLoop

/-!
# Graphs with an index of their addresses

An address need not be searched for among the nodes. A control-flow graph may keep an index that
tells which node an address belongs to, beside the tables of neighbours that its nodes and edges
stand in (`Indexed`). A node is then added in two steps, first to the tables and next to the index,
and whatever is asked by address goes through the index. Nothing but the order of these steps keeps
the two apart parts in line, so every look-up behind the one in the index may fail here (`none`).

The parts are those of a graph if the tables are the graph's and the index finds what a search among
the nodes does (`Indexed.Keeps`). A change of the graph keeps them so and is replied to in the same
way (`Indexed.Keeps.exists_on?`), and so is every list of changes. No look-up fails on the way, nor
in any query behind it (`index_kept_in_step`).
-/

namespace FlowText

/-! ### Postorder in tables -/

namespace Adjacency

variable {ν ε : Type}

/-- The nodes of the tables that have no mark. -/
def unseen (a : Adjacency ν ε) (seen : List NodeId) : List NodeId :=
  Digraph.unseen ({ nodes := a.nodes.toArray } : Digraph ν ε) seen

/-- A node that is met for the first time is no longer among those that were not seen. -/
theorem length_unseen_lt {a : Adjacency ν ε} {seen : List NodeId} {v : NodeId}
    (hv : v.index < a.nodes.length) (hs : v ∉ seen) :
    (a.unseen (v :: seen)).length < (a.unseen seen).length :=
  Digraph.length_unseen_lt (by simpa [Digraph.nodeCount] using hv) hs

/-- **Loop.** Works off a stack of visits as `Digraph.turn` does, with the rows of the tables for
the successors. There is a mark for every node of the tables, and for nothing else. -/
def loop? (a : Adjacency ν ε) (seen listed : List NodeId) :
    List Digraph.Visit → Option (List NodeId)
  | [] => some listed
  | .leave v :: stack => a.loop? seen (listed ++ [v]) stack
  | .enter v :: stack =>
    if hv : v.index < a.nodes.length then
      if hs : v ∈ seen then a.loop? seen listed stack
      else
        have := length_unseen_lt hv hs
        (a.successors? v).bind fun next =>
          a.loop? (v :: seen) listed
            ((next.filter (· ∉ v :: seen)).map .enter ++ .leave v :: stack)
    else none
termination_by stack => ((a.unseen seen).length, stack.length)

/-- What can be reached from a node, each behind what is reached from it. -/
def postorder? (a : Adjacency ν ε) (start : NodeId) : Option (List NodeId) :=
  if a.nodes.length ≤ start.index then some [] else a.loop? [] [] [.enter start]

end Adjacency

namespace Digraph

variable {ν ε : Type}

/-- **Turn.** The loop in the tables goes on as the loop in the graph does. -/
theorem loop?_of_turn {g : Digraph ν ε} {s s' : Loop} (h : g.turn s = some s') :
    g.tables.loop? s.seen s.listed s.stack = g.tables.loop? s'.seen s'.listed s'.stack := by
  obtain ⟨seen, listed, stack⟩ := s
  cases stack with
  | nil => cases h
  | cons visit stack =>
    cases visit with
    | leave v =>
      obtain rfl := Option.some.inj h
      rw [Adjacency.loop?]
    | enter v =>
      rw [Adjacency.loop?]
      rw [turn] at h
      split at h
      · next hv =>
        have hv' : v.index < g.tables.nodes.length := Array.length_toList ▸ hv
        rw [dif_pos hv']
        split at h
        · next hs =>
          obtain rfl := Option.some.inj h
          rw [dif_pos hs]
        · next hs =>
          obtain rfl := Option.some.inj h
          rw [dif_neg hs, successors?_tables, Option.bind_some]
      · cases h

/-- **Run.** What the loop in the graph ends with, the loop in the tables gives. -/
theorem loop?_of_turns {g : Digraph ν ε} {s : Loop} {seen listed : List NodeId}
    (h : g.Turns s ⟨seen, listed, []⟩) :
    g.tables.loop? s.seen s.listed s.stack = some listed := by
  induction h using Relation.ReflTransGen.head_induction_on with
  | refl => rw [Adjacency.loop?]
  | head hturn _ ih => rw [loop?_of_turn hturn, ih]

/-- **Postorder.** The tables list what the graph does, and every row is there. -/
theorem postorder?_tables (g : Digraph ν ε) (start : NodeId) :
    g.tables.postorder? start = some (g.postorder start) := by
  have hcount : g.tables.nodes.length = g.nodeCount := Array.length_toList
  rw [Adjacency.postorder?, hcount]
  by_cases h : g.nodeCount ≤ start.index
  · rw [if_pos h, postorder_of_le h]
  · rw [if_neg h]
    have hlt : start.index < g.nodeCount := Nat.lt_of_not_le h
    obtain ⟨marked, hemits⟩ := exists_emits_postorder hlt
    have hturns :=
      turns_of_emits hemits (List.forall_mem_singleton.2 hlt) (List.nil_subset []) [] []
    exact loop?_of_turns hturns

theorem nodes_tables (g : Digraph ν ε) : g.tables.nodes = g.nodes.toList := rfl

/-- Changing what nodes carry does not change the ways through a graph. -/
theorem postorder_mapNodes (g : Digraph ν ε) (f : ν → ν) (start : NodeId) :
    (g.mapNodes f).postorder start = g.postorder start := by
  have hids : (g.mapNodes f).nodeIds = g.nodeIds := by simp [nodeIds, nodeCount, mapNodes]
  rw [postorder_eq_depthFirst, postorder_eq_depthFirst, hids]
  rfl

/-- An edge that is found is one of the tables. -/
theorem exists_edge_tables {g : Digraph ν ε} {s t : NodeId} {e : EdgeId}
    (h : g.findEdge? s t = some e) : ∃ x, g.tables.edges[e.index]? = some x := by
  obtain ⟨i, hi, rfl⟩ := Option.map_eq_some_iff.1 h
  obtain ⟨hlt, -, -⟩ := Array.findIdx?_eq_some_iff_getElem.1 hi
  exact ⟨g.edges[i], Array.getElem?_toList.trans (Array.getElem?_eq_getElem hlt)⟩

end Digraph

/-! ### Tables with an index -/

/-- **Indexed.** The tables of neighbours, the index of the addresses, and the chosen entry. -/
structure Indexed where
  tables : Adjacency Node (Option Cond) := {}
  index : Keyed (Prod.fst : String × NodeId → String) := {}
  chosen : Option NodeId := none

/-- What is replied to a change that is not refused. -/
inductive ChangeReply where
  | given (r : GraphReply)
  | numbered (count : Nat)
  deriving DecidableEq, Repr

namespace Indexed

/-! #### Questions -/

/-- The node of an address, by the index alone. -/
def nodeId? (s : Indexed) (addr : String) : Option NodeId := (s.index.find? addr).map Prod.snd

/-- The address of a node. -/
def addrAt? (s : Indexed) (v : NodeId) : Option String := s.tables.nodes[v.index]?.map Node.addr

/-- What the node of an address holds. -/
def node? (s : Indexed) (addr : String) : Option (Option Node) :=
  match s.nodeId? addr with
  | some v => s.tables.nodes[v.index]?.map some
  | none => some none

/-- The addresses of the nodes in a row. -/
def addrs? (s : Indexed) (row : Option (List NodeId)) : Option (List String) :=
  row.bind fun vs => vs.mapM s.addrAt?

/-- The addresses that the edges of an address lead to. -/
def succ? (s : Indexed) (addr : String) : Option (List String) :=
  match s.nodeId? addr with
  | some v => s.addrs? (s.tables.successors? v)
  | none => some []

/-- The addresses that edges to an address come from. -/
def pred? (s : Indexed) (addr : String) : Option (List String) :=
  match s.nodeId? addr with
  | some v => s.addrs? (s.tables.predecessors? v)
  | none => some []

/-- The edge from one address to another. -/
def edgeId? (s : Indexed) (source target : String) : Option (Option EdgeId) :=
  match s.nodeId? source, s.nodeId? target with
  | some v, some w => s.tables.findEdge? v w
  | _, _ => some none

/-- The condition of the edge from one address to another. -/
def edgeCond? (s : Indexed) (source target : String) : Option (Option Cond) :=
  (s.edgeId? source target).bind fun
    | some e => s.tables.edges[e.index]?.map Edge.data
    | none => some none

/-- The entry node: the chosen one, or else the first that was added. -/
def entryId? (s : Indexed) : Option NodeId :=
  s.chosen.or (if s.tables.nodes.isEmpty then none else some ⟨0⟩)

/-- The address of the entry. -/
def start? (s : Indexed) : Option (Option String) :=
  match s.entryId? with
  | some v => (s.addrAt? v).map some
  | none => some none

/-- The addresses in natural order, by way of the identifiers. -/
def sortedAddrs? (s : Indexed) : Option (List String) :=
  let named := s.tables.nodes.zipIdx.map fun (n, i) => ((⟨i⟩ : NodeId), n)
  s.addrs? (some ((sortByName (fun (_, n) => n.addr) named).map Prod.fst))

/-! #### Changes -/

/-- Asks the tables. The index is not touched. -/
def ask? (s : Indexed) (r : GraphRequest Node (Option Cond)) :
    Option (Except GraphError GraphReply × Indexed) :=
  (s.tables.on? r).map fun (reply, tables) => (reply, { s with tables })

/-- **Mention.** The node of an address. One that is added is put into the index. -/
def ensureNode? (s : Indexed) (addr : String) : Option (NodeId × Indexed) :=
  match s.nodeId? addr with
  | some v => some (v, s)
  | none => do
    let (reply, s) ← s.ask? (.addNode { addr })
    let v ← newNode? reply
    return (v, { s with index := s.index.insert (addr, v) })

/-- Changes a node, which has to be there. -/
def modifyAt? (s : Indexed) (v : NodeId) (f : Node → Node) : Option Indexed := do
  let _ ← s.tables.nodes[v.index]?
  let (_, s) ← s.ask? (.modifyNode v f)
  return s

/-- Sets the condition of an edge, which has to be there. -/
def setCondAt? (s : Indexed) (e : EdgeId) (cond : Option Cond) : Option Indexed := do
  let _ ← s.tables.edges[e.index]?
  let (_, s) ← s.ask? (.modifyEdge e fun _ => cond)
  return s

/-- Stores a block. Its address is mentioned before its node is asked for a block. -/
def addBlock? (s : Indexed) (b : Block) : Option (Except GraphError ChangeReply × Indexed) := do
  let (v, s) ← s.ensureNode? b.addr
  let n ← s.tables.nodes[v.index]?
  if n.block.isSome then return (.error (.duplicateBlock b.addr), s)
  let s ← s.modifyAt? v fun n => { n with block := some b }
  return (.ok (.given (.node v)), s)

/-- Adds an edge, or sets the condition of the one that is there. -/
def addEdge? (s : Indexed) (source target : String) (cond : Option Cond) :
    Option (Except GraphError ChangeReply × Indexed) := do
  let (v, s) ← s.ensureNode? source
  let (w, s) ← s.ensureNode? target
  match ← s.tables.findEdge? v w with
  | some e =>
    let s ← s.setCondAt? e cond
    return (.ok (.given (.edge e)), s)
  | none =>
    let (reply, s) ← s.ask? (.addEdge v w cond)
    return (reply.map .given, s)

/-- Gives nodes their numbers, which are one more than what they come with. -/
def numberNodes? (s : Indexed) : List (NodeId × Nat) → Option Indexed
  | [] => some s
  | (v, i) :: rest => do
    let s ← s.modifyAt? v fun n => { n with number := some (i + 1) }
    s.numberNodes? rest

/-- Clears all numbers, and numbers what can be reached from the entry. -/
def numberPostorder? (s : Indexed) : Option (Except GraphError ChangeReply × Indexed) := do
  let (_, s) ← s.ask? (.mapNodes fun n => { n with number := none })
  match s.entryId? with
  | none => return (.ok (.numbered 0), s)
  | some v =>
    let order ← s.tables.postorder? v
    let s ← s.numberNodes? order.zipIdx
    return (.ok (.numbered order.length), s)

/-- **Step.** What is replied to a change, and what there is afterwards. -/
def on? (s : Indexed) : Change → Option (Except GraphError ChangeReply × Indexed)
  | .node addr => do
    let (v, s) ← s.ensureNode? addr
    return (.ok (.given (.node v)), s)
  | .block b => s.addBlock? b
  | .edge source target cond => s.addEdge? source target cond
  | .edgeCond source target cond => do
    match ← s.edgeId? source target with
    | none => return (.error (.noEdge source target), s)
    | some e =>
      let s ← s.setCondAt? e cond
      return (.ok (.given .done), s)
  | .number addr number =>
    match s.nodeId? addr with
    | none => some (.error (.unknownAddr addr), s)
    | some v => do
      let s ← s.modifyAt? v fun n => { n with number := number.map UInt64.toNat }
      return (.ok (.given .done), s)
  | .entry addr =>
    match s.nodeId? addr with
    | none => some (.error (.unknownEntry addr), s)
    | some v => some (.ok (.given .done), { s with chosen := some v })
  | .postorder => s.numberPostorder?

/-- **Run.** The replies to a list of changes, and what there is at the end. -/
def answers? (s : Indexed) :
    List Change → Option (List (Except GraphError ChangeReply) × Indexed)
  | [] => some ([], s)
  | c :: cs => do
    let (reply, s) ← s.on? c
    let (replies, s) ← s.answers? cs
    return (reply :: replies, s)

end Indexed

namespace Cfg

/-- What is replied to a change of a graph. -/
def reply (g : Cfg) : Change → Except GraphError ChangeReply
  | .node addr => .ok (.given (.node (g.ensureNode addr).1))
  | .block b => (g.addBlock b).map fun p => .given (.node p.1)
  | .edge source target cond => .ok (.given (.edge (g.addEdge source target cond).1))
  | .edgeCond source target cond => (g.setEdgeCond source target cond).map fun _ => .given .done
  | .number addr number => (g.setNumber addr (number.map UInt64.toNat)).map fun _ => .given .done
  | .entry addr => (g.setEntry addr).map fun _ => .given .done
  | .postorder => .ok (.numbered g.numberPostorder.1)

/-- A change of a graph with the reply to it. -/
def on (g : Cfg) (c : Change) : Except GraphError ChangeReply × Cfg := (g.reply c, g.apply c)

/-- Addresses have the nodes that they have by the order of the addresses alone. -/
theorem nodeId?_congr {g h : Cfg} (hn : h.nodes.map Node.addr = g.nodes.map Node.addr)
    (addr : String) : h.nodeId? addr = g.nodeId? addr := by
  have hiff : ∀ {k : Cfg} {v : NodeId}, k.nodeId? addr = some v ↔
      (k.nodes.map Node.addr)[v.index]? = some addr := by
    intro k v
    rw [nodeId?_eq_some_iff, List.getElem?_map, Option.map_eq_some_iff]
  refine Option.ext fun v => ?_
  rw [hiff, hiff, hn]

/-- A node that is added for an address is the node of this address, and of no other one. -/
theorem nodeId?_ensureNode_of_none {g : Cfg} {a : String} (h : g.nodeId? a = none) (addr : String) :
    (g.ensureNode a).2.nodeId? addr =
      if a = addr then some (g.ensureNode a).1 else g.nodeId? addr := by
  by_cases ha : a = addr
  · rw [if_pos ha, ← ha, nodeId?_ensureNode]
  · rw [if_neg ha]
    cases hv : g.nodeId? addr with
    | some v => exact nodeId?_of_prefix (nodes_ensureNode g a ▸ addrs_touch g.nodes a) hv
    | none =>
      rw [nodeId?_eq_none_iff, nodes_ensureNode, touch_of_not_mem (nodeId?_eq_none_iff.1 h),
        List.map_append, List.mem_append, not_or]
      exact ⟨nodeId?_eq_none_iff.1 hv, fun hm => ha (List.mem_singleton.1 hm).symm⟩

/-- The entry is an address that the graph has, and nothing else is changed for it. -/
theorem setEntry_cases (g : Cfg) (addr : String) :
    (∃ v h, g.nodeId? addr = some v ∧ g.setEntry addr = .ok h ∧ h.graph = g.graph ∧
      h.chosen = some v) ∨
    g.nodeId? addr = none ∧ g.setEntry addr = .error (.unknownEntry addr) := by
  rw [setEntry]
  split
  · next v hv => exact .inl ⟨v, _, hv, rfl, rfl, rfl⟩
  · next hv => exact .inr ⟨hv, rfl⟩

/-- An address that is new gets a node at the end of the arena. -/
theorem ensureNode_of_nodeId?_eq_none {g : Cfg} {addr : String} (h : g.nodeId? addr = none) :
    (g.ensureNode addr).1 = ⟨g.nodeCount⟩ ∧
      (g.ensureNode addr).2.graph = (g.graph.addNode { addr }).2 := by
  rw [ensureNode]
  split
  · next hv => cases h.symm.trans hv
  · exact ⟨rfl, rfl⟩

end Cfg

/-! ### The parts of a graph -/

namespace Indexed

/-- **Kept in line.** The tables are those of the graph, and the index finds the node that a search
among the nodes does. -/
structure Keeps (s : Indexed) (g : Cfg) : Prop where
  tables : s.tables = g.graph.tables
  nodeId : ∀ addr, s.nodeId? addr = g.nodeId? addr
  chosen : s.chosen = g.chosen

/-- Without nodes there is nothing to keep in line. -/
theorem keeps_empty : Keeps {} .empty where
  tables := rfl
  nodeId _ := (Cfg.nodeId?_eq_none_iff.2 List.not_mem_nil).symm
  chosen := rfl

namespace Keeps

variable {s : Indexed} {g : Cfg}

/-- **Request.** The tables are asked, and answer as the graph below the addresses does. -/
theorem ask (hs : s.Keeps g) (r : GraphRequest Node (Option Cond)) :
    s.ask? r = some ((g.graph.on r).1, { s with tables := (g.graph.on r).2.tables }) := by
  rw [ask?, hs.tables, Digraph.on?_tables]
  rfl

/-- A change below the addresses leaves the index as it has to be. -/
theorem of_addrs (hs : s.Keeps g) {h : Cfg} (hn : h.nodes.map Node.addr = g.nodes.map Node.addr)
    (hc : h.chosen = g.chosen) : Keeps { s with tables := h.graph.tables } h where
  tables := rfl
  nodeId addr := (hs.nodeId addr).trans (Cfg.nodeId?_congr hn addr).symm
  chosen := hs.chosen.trans hc.symm

/-- What is kept in line is the graph below the addresses, and its entry. -/
theorem of_graph (hs : s.Keeps g) {h : Cfg} (hg : h.graph = g.graph) (hc : h.chosen = g.chosen) :
    s.Keeps h where
  tables := hs.tables.trans (congrArg Digraph.tables hg.symm)
  nodeId addr := by rw [hs.nodeId, Cfg.nodeId?, Cfg.nodeId?, hg]
  chosen := hs.chosen.trans hc.symm

/-- The table of nodes is the arena. -/
theorem getElem?_nodes (hs : s.Keeps g) (i : Nat) : s.tables.nodes[i]? = g.nodes[i]? := by
  rw [hs.tables]
  rfl

/-- **Mention.** A node is added to the tables and to the index, or found by the index. -/
theorem ensureNode (hs : s.Keeps g) (addr : String) :
    ∃ s', s.ensureNode? addr = some ((g.ensureNode addr).1, s') ∧
      s'.Keeps (g.ensureNode addr).2 := by
  rw [ensureNode?, hs.nodeId]
  cases h : g.nodeId? addr with
  | some v =>
    rw [Cfg.ensureNode_of_nodeId? h]
    exact ⟨s, rfl, hs⟩
  | none =>
    obtain ⟨hid, hgraph⟩ := Cfg.ensureNode_of_nodeId?_eq_none h
    have hask := hs.ask (.addNode { addr })
    have hreply : newNode? (g.graph.on (.addNode { addr })).1 = some (g.ensureNode addr).1 := by
      rw [hid]
      rfl
    simp only [hask, Option.bind_eq_bind, Option.bind_some, hreply]
    refine ⟨_, rfl, ?_, fun a => ?_, ?_⟩
    · rw [hgraph]
      rfl
    · rw [Cfg.nodeId?_ensureNode_of_none h, nodeId?, Keyed.find?_insert]
      by_cases ha : addr = a
      · rw [if_pos ha, if_pos ha]
        rfl
      · rw [if_neg ha, if_neg ha]
        exact hs.nodeId a
    · exact hs.chosen.trans (g.chosen_ensureNode addr).symm

/-- A node that is there is changed. -/
theorem modifyAt (hs : s.Keeps g) {v : NodeId} (hv : v.index < g.nodes.length) {f : Node → Node}
    (hf : ∀ n, (f n).addr = n.addr) :
    ∃ s', s.modifyAt? v f = some s' ∧ s'.Keeps (g.modifyNode v f) := by
  have hnode : s.tables.nodes[v.index]? = some g.nodes[v.index] := by
    rw [hs.getElem?_nodes, List.getElem?_eq_getElem hv]
  have hchange : (fun n => { f n with addr := n.addr }) = f := by
    funext n
    rw [← hf n]
  have hgraph : (g.graph.on (.modifyNode v f)).2 = (g.modifyNode v f).graph :=
    congrArg (g.graph.modifyNode v) hchange.symm
  simp only [modifyAt?, hnode, hs.ask, Option.bind_eq_bind, Option.bind_some, hgraph]
  exact ⟨_, rfl, hs.of_addrs (Cfg.addrs_modifyNode g v f) rfl⟩

/-- The condition of an edge that is found is set. -/
theorem setCondAt (hs : s.Keeps g) {v w : NodeId} {e : EdgeId} (he : g.graph.findEdge? v w = some e)
    (cond : Option Cond) : ∃ s', s.setCondAt? e cond = some s' ∧ s'.Keeps (g.setCondAt e cond) := by
  obtain ⟨x, hx⟩ := Digraph.exists_edge_tables he
  rw [← hs.tables] at hx
  simp only [setCondAt?, hx, hs.ask, Option.bind_eq_bind, Option.bind_some]
  exact ⟨_, rfl, hs.of_addrs (h := g.setCondAt e cond) rfl rfl⟩

/-- The edge from one address to another, by the index and the rows. -/
theorem edgeId (hs : s.Keeps g) (source target : String) :
    s.edgeId? source target = some (g.edgeId? source target) := by
  rw [edgeId?, Cfg.edgeId?, hs.nodeId, hs.nodeId, hs.tables]
  cases g.nodeId? source with
  | none => rfl
  | some v =>
    cases g.nodeId? target with
    | none => rfl
    | some w => exact Digraph.findEdge?_tables g.graph v w

/-- **Block.** Its address is mentioned first. A block that is refused has an address that is known,
so that nothing is added for it. -/
theorem addBlock (hs : s.Keeps g) (b : Block) :
    ∃ s', s.addBlock? b = some (g.reply (.block b), s') ∧ s'.Keeps (g.apply (.block b)) := by
  obtain ⟨s₁, hfirst, hs₁⟩ := hs.ensureNode b.addr
  have hlt : (g.ensureNode b.addr).1.index < (g.ensureNode b.addr).2.nodes.length :=
    Cfg.ensureNode_lt g b.addr
  have hnode := (hs₁.getElem?_nodes _).trans (List.getElem?_eq_getElem hlt)
  have hblock : (g.ensureNode b.addr).2.nodes[(g.ensureNode b.addr).1.index].block =
      g.block? b.addr := by
    rw [← Cfg.block?_ensureNode, Cfg.block?, Cfg.node?, Cfg.nodeId?_ensureNode, Option.bind_some,
      Cfg.nodeAt?_eq, List.getElem?_eq_getElem hlt, Option.bind_some]
  simp only [addBlock?, hfirst, hnode, hblock, Option.bind_eq_bind, Option.bind_some, Cfg.reply,
    Cfg.apply, Cfg.addBlock]
  split
  · next hsome =>
    -- the address was known, so its node has not been added just now
    obtain ⟨c, hc⟩ := Option.isSome_iff_exists.1 hsome
    obtain ⟨n, hn, -⟩ := Option.bind_eq_some_iff.1 hc
    obtain ⟨v, hv, -⟩ := Option.bind_eq_some_iff.1 hn
    rw [Cfg.ensureNode_of_nodeId? hv] at hs₁
    exact ⟨s₁, rfl, hs₁⟩
  · obtain ⟨s₂, hsecond, hs₂⟩ :=
      hs₁.modifyAt (f := fun n => { n with block := some b }) hlt fun _ => rfl
    rw [hsecond]
    exact ⟨s₂, rfl, hs₂⟩

/-- **Edge.** Both ends are mentioned first, so that the tables do not refuse it. -/
theorem addEdge (hs : s.Keeps g) (source target : String) (cond : Option Cond) :
    ∃ s', s.addEdge? source target cond = some (g.reply (.edge source target cond), s') ∧
      s'.Keeps (g.apply (.edge source target cond)) := by
  obtain ⟨s₁, hfirst, hs₁⟩ := hs.ensureNode source
  obtain ⟨s₂, hsecond, hs₂⟩ := hs₁.ensureNode target
  have hadded := g.tryEdge_eq source target cond
  have hnodes : (g.addEdge source target cond).2.nodes =
      ((g.ensureNode source).2.ensureNode target).2.nodes := by
    rw [Cfg.nodes_addEdge, Cfg.nodes_ensureNode, Cfg.nodes_ensureNode]
  have hchosen : (g.addEdge source target cond).2.chosen =
      ((g.ensureNode source).2.ensureNode target).2.chosen := by
    rw [Cfg.chosen_addEdge, Cfg.chosen_ensureNode, Cfg.chosen_ensureNode]
  simp only [Cfg.tryEdge, Cfg.withEnds] at hadded
  simp only [addEdge?, hfirst, hsecond, hs₂.tables, Digraph.findEdge?_tables, Option.bind_eq_bind,
    Option.bind_some, Cfg.reply, Cfg.apply]
  cases he : ((g.ensureNode source).2.ensureNode target).2.graph.findEdge? (g.ensureNode source).1
      ((g.ensureNode source).2.ensureNode target).1 with
  | some e =>
    simp only [he] at hadded
    obtain ⟨rfl, hgraph⟩ := Prod.mk.inj (Except.ok.inj hadded)
    obtain ⟨s₃, hthird, hs₃⟩ := hs₂.setCondAt he cond
    simp only [hthird, Option.bind_some]
    exact ⟨s₃, rfl, hs₃.of_graph hgraph.symm hchosen⟩
  | none =>
    simp only [he] at hadded
    have hask := hs₂.ask (.addEdge (g.ensureNode source).1
      ((g.ensureNode source).2.ensureNode target).1 cond)
    simp only [Digraph.on, hadded] at hask
    simp only [hask, Option.bind_some]
    exact ⟨_, rfl, hs₂.of_addrs (congrArg _ hnodes) hchosen⟩

/-- **Numbers.** Every node on the list is there. -/
theorem numberNodes (hs : s.Keeps g) {order : List (NodeId × Nat)}
    (h : ∀ p ∈ order, p.1.index < g.nodes.length) :
    ∃ s', s.numberNodes? order = some s' ∧ s'.Keeps
      (order.foldl (fun g p => g.modifyNode p.1 fun n => { n with number := some (p.2 + 1) })
        g) := by
  induction order generalizing s g with
  | nil => exact ⟨s, rfl, hs⟩
  | cons p order ih =>
    obtain ⟨hp, hrest⟩ := List.forall_mem_cons.1 h
    obtain ⟨s₁, hfirst, hs₁⟩ :=
      hs.modifyAt (f := fun n => { n with number := some (p.2 + 1) }) hp fun _ => rfl
    have hcount (q : NodeId × Nat) (hq : q ∈ order) : q.1.index <
        (g.modifyNode p.1 fun n => { n with number := some (p.2 + 1) }).nodes.length := by
      rw [Cfg.length_nodes_modifyNode]
      exact hrest q hq
    obtain ⟨s', hlater, hs'⟩ := ih hs₁ hcount
    refine ⟨s', ?_, hs'⟩
    simp only [numberNodes?, hfirst, Option.bind_eq_bind, Option.bind_some, hlater]

/-- The entry is found without an address. -/
theorem entryId (hs : s.Keeps g) : s.entryId? = g.entryId? := by
  rw [entryId?, Cfg.entryId?, hs.chosen, hs.tables, Digraph.nodes_tables, Cfg.isEmpty,
    Digraph.isEmpty, Array.isEmpty_toList]

/-- **Postorder.** The numbers are cleared before the walk, which does not look at them. -/
theorem numberPostorder (hs : s.Keeps g) :
    ∃ s', s.numberPostorder? = some (g.reply .postorder, s') ∧ s'.Keeps (g.apply .postorder) := by
  let cleared := g.mapNodes fun n => { n with number := none }
  have hcleared : Keeps { s with tables := cleared.graph.tables } cleared :=
    hs.of_addrs (Cfg.addrs_mapNodes g _) rfl
  have hask : s.ask? (.mapNodes fun n => { n with number := none }) =
      some (.ok .done, { s with tables := cleared.graph.tables }) := hs.ask _
  have hentry : Indexed.entryId? { s with tables := cleared.graph.tables } = g.entryId? := by
    rw [hcleared.entryId, Cfg.entryId?, Cfg.entryId?]
    simp [cleared, Cfg.mapNodes, Cfg.isEmpty, Digraph.isEmpty, Digraph.mapNodes]
  have horder (v : NodeId) : cleared.graph.tables.postorder? v = some (g.graph.postorder v) :=
    (Digraph.postorder?_tables _ v).trans (congrArg some (Digraph.postorder_mapNodes _ _ v))
  simp only [numberPostorder?, hask, hentry, Option.bind_eq_bind, Option.bind_some, Cfg.reply,
    Cfg.apply, Cfg.numberPostorder_eq, Cfg.entryOrder]
  cases hv : g.entryId? with
  | none => exact ⟨_, rfl, hcleared⟩
  | some v =>
    have hmem : ∀ p ∈ (g.graph.postorder v).zipIdx, p.1.index < cleared.nodes.length := by
      intro p hp
      rw [Cfg.nodes_mapNodes, List.length_map]
      refine Cfg.lt_of_mem_entryOrder ?_
      rw [Cfg.entryOrder, hv]
      exact List.fst_mem_of_mem_zipIdx hp
    obtain ⟨s', hnumbered, hs'⟩ := hcleared.numberNodes hmem
    simp only [horder, Option.bind_some, hnumbered]
    exact ⟨s', rfl, hs'⟩

/-- **Step.** What is stored with an index replies to a change as the graph does, and is kept in
line by it. -/
theorem exists_on? (hs : s.Keeps g) (c : Change) :
    ∃ s', s.on? c = some (g.reply c, s') ∧ s'.Keeps (g.apply c) := by
  cases c with
  | node addr =>
    obtain ⟨s', hnode, hs'⟩ := hs.ensureNode addr
    simp only [on?, hnode, Option.bind_eq_bind, Option.bind_some]
    exact ⟨s', rfl, hs'⟩
  | block b => exact hs.addBlock b
  | edge source target cond => exact hs.addEdge source target cond
  | edgeCond source target cond =>
    simp only [on?, hs.edgeId, Option.bind_eq_bind, Option.bind_some, Cfg.reply, Cfg.apply,
      Cfg.setEdgeCond]
    cases he : g.edgeId? source target with
    | none => exact ⟨s, rfl, hs⟩
    | some e =>
      obtain ⟨v, w, -, -, hfind⟩ := Cfg.edgeId?_eq_some_iff.1 he
      obtain ⟨s', hset, hs'⟩ := hs.setCondAt hfind cond
      simp only [hset, Option.bind_some]
      exact ⟨s', rfl, hs'⟩
  | number addr number =>
    simp only [on?, hs.nodeId, Option.bind_eq_bind, Cfg.reply, Cfg.apply, Cfg.setNumber]
    cases hv : g.nodeId? addr with
    | none => exact ⟨s, rfl, hs⟩
    | some v =>
      obtain ⟨s', hset, hs'⟩ := hs.modifyAt
        (f := fun n => { n with number := number.map UInt64.toNat }) (Cfg.lt_of_nodeId? hv)
        fun _ => rfl
      simp only [hset, Option.bind_some]
      exact ⟨s', rfl, hs'⟩
  | entry addr =>
    rcases g.setEntry_cases addr with ⟨v, h, hv, hset, hgraph, hchosen⟩ | ⟨hv, hset⟩
    · simp only [on?, hs.nodeId, hv, Cfg.reply, Cfg.apply, hset]
      refine ⟨_, rfl, hs.tables.trans (congrArg _ hgraph.symm), fun a => ?_, hchosen.symm⟩
      exact (hs.nodeId a).trans (Cfg.nodeId?_congr
        (congrArg (·.nodes.toList.map Node.addr) hgraph) a).symm
    · simp only [on?, hs.nodeId, hv, Cfg.reply, Cfg.apply, hset]
      exact ⟨s, rfl, hs⟩
  | postorder => exact hs.numberPostorder

/-- **Run.** So are the replies to any number of changes, and what is stored is kept in line. -/
theorem exists_answers? (hs : s.Keeps g) (changes : List Change) :
    ∃ s', s.answers? changes = some ((FlowText.answers Cfg.on g changes).1, s') ∧
      s'.Keeps (changes.foldl Cfg.apply g) := by
  induction changes generalizing s g with
  | nil => exact ⟨s, rfl, hs⟩
  | cons c changes ih =>
    obtain ⟨s₁, hfirst, hs₁⟩ := hs.exists_on? c
    obtain ⟨s₂, hlater, hs₂⟩ := ih hs₁
    refine ⟨s₂, ?_, hs₂⟩
    simp only [answers?, hfirst, Option.bind_eq_bind, Option.bind_some, hlater]
    rfl

/-! #### Queries -/

/-- The addresses of nodes of the graph. -/
theorem addrs (hs : s.Keeps g) {vs : List NodeId} (h : ∀ v ∈ vs, v.index < g.nodes.length) :
    s.addrs? (some vs) = some (vs.map g.addrAt) := by
  have haddr : ∀ v ∈ vs, s.addrAt? v = some (g.addrAt v) := by
    intro v hv
    have hnode := List.getElem?_eq_getElem (h v hv)
    rw [addrAt?, hs.getElem?_nodes, hnode, Cfg.addrAt_of_getElem? hnode]
    rfl
  rw [addrs?, Option.bind_some]
  clear h
  induction vs with
  | nil => rfl
  | cons v vs ih =>
    obtain ⟨hv, hvs⟩ := List.forall_mem_cons.1 haddr
    rw [List.mapM_cons, hv, ih hvs]
    rfl

/-- What the node of an address holds. -/
theorem node (hs : s.Keeps g) (addr : String) : s.node? addr = some (g.node? addr) := by
  rw [node?, hs.nodeId, Cfg.node?]
  cases hv : g.nodeId? addr with
  | none => rfl
  | some v =>
    have hnode := List.getElem?_eq_getElem (l := g.nodes) (Cfg.lt_of_nodeId? hv)
    rw [Option.bind_some, Cfg.nodeAt?_eq, hnode]
    change (s.tables.nodes[v.index]?).map some = _
    rw [hs.getElem?_nodes, hnode, Option.map_some]

/-- The successors of an address, by its row. -/
theorem succ (hs : s.Keeps g) (addr : String) : s.succ? addr = some (g.succ addr) := by
  rw [succ?, hs.nodeId, Cfg.succ, hs.tables]
  cases g.nodeId? addr with
  | none => rfl
  | some v =>
    change s.addrs? (g.graph.tables.successors? v) = _
    rw [Digraph.successors?_tables]
    exact hs.addrs fun w hw => Digraph.lt_of_mem_successors hw

/-- The predecessors of an address, by its row. -/
theorem pred (hs : s.Keeps g) (addr : String) : s.pred? addr = some (g.pred addr) := by
  rw [pred?, hs.nodeId, Cfg.pred, hs.tables]
  cases g.nodeId? addr with
  | none => rfl
  | some v =>
    change s.addrs? (g.graph.tables.predecessors? v) = _
    rw [Digraph.predecessors?_tables]
    refine hs.addrs fun w hw => ?_
    obtain ⟨e, he, rfl⟩ := List.mem_map.1 hw
    exact g.graph.source_lt e (Array.mem_def.2 (List.mem_filter.1 he).1)

/-- The condition of an edge that is found is there. -/
theorem edgeCond (hs : s.Keeps g) (source target : String) :
    s.edgeCond? source target = some (g.edgeCond? source target) := by
  rw [edgeCond?, hs.edgeId, Cfg.edgeCond?, Option.bind_some]
  cases he : g.edgeId? source target with
  | none => rfl
  | some e =>
    obtain ⟨v, w, -, -, hfind⟩ := Cfg.edgeId?_eq_some_iff.1 he
    obtain ⟨x, hx⟩ := Digraph.exists_edge_tables hfind
    have hedge : g.graph.edge? e = some x.data := by
      rw [Digraph.edge?, ← Array.getElem?_toList]
      exact congrArg (Option.map Edge.data) hx
    change (s.tables.edges[e.index]?).map Edge.data = _
    rw [hs.tables, hx, Option.bind_some, hedge]
    rfl

/-- The address of the entry. -/
theorem start (hs : s.Keeps g) : s.start? = some g.entry? := by
  rw [start?, hs.entryId]
  unfold Cfg.entry?
  cases hv : g.entryId? with
  | none => rfl
  | some v =>
    have hnode := List.getElem?_eq_getElem (l := g.nodes) (Cfg.entryId?_lt hv)
    change (s.addrAt? v).map some = _
    rw [addrAt?, hs.getElem?_nodes, hnode, Option.map_some, Option.map_some, Option.map_some,
      Cfg.addrAt_of_getElem? hnode]

/-- The addresses are sorted where the nodes are, and the index is not asked. -/
theorem sortedAddrs (hs : s.Keeps g) : s.sortedAddrs? = some g.sortedAddrs := by
  rw [sortedAddrs?, hs.tables]
  exact hs.addrs fun v hv => Cfg.lt_of_mem_sortedIds hv

end Keeps

/-- **Answers.** Whatever is asked, the index and the tables tell what the graph does, and no
look-up in them fails. -/
structure AnswersAs (s : Indexed) (g : Cfg) : Prop where
  nodeId : ∀ addr, s.nodeId? addr = g.nodeId? addr
  node : ∀ addr, s.node? addr = some (g.node? addr)
  succ : ∀ addr, s.succ? addr = some (g.succ addr)
  pred : ∀ addr, s.pred? addr = some (g.pred addr)
  edgeId : ∀ source target, s.edgeId? source target = some (g.edgeId? source target)
  edgeCond : ∀ source target, s.edgeCond? source target = some (g.edgeCond? source target)
  start : s.start? = some g.entry?
  sortedAddrs : s.sortedAddrs? = some g.sortedAddrs

/-- **An index that is kept in step** answers as the search does. -/
theorem Keeps.answersAs {s : Indexed} {g : Cfg} (hs : s.Keeps g) : s.AnswersAs g where
  nodeId := hs.nodeId
  node := hs.node
  succ := hs.succ
  pred := hs.pred
  edgeId := hs.edgeId
  edgeCond := hs.edgeCond
  start := hs.start
  sortedAddrs := hs.sortedAddrs

end Indexed

/-- **The index is kept in step.** Whatever changes are made, one after the other, each is replied
to with the index as it is without one, and no look-up behind the index fails. Afterwards the index
knows an address by its place in the map that the changes build, every query by address is answered
as the graph answers it, and so will the next change be. -/
theorem index_kept_in_step (changes : List Change) :
    ∃ s, Indexed.answers? {} changes = some ((answers Cfg.on .empty changes).1, s) ∧
      (∀ addr v, s.nodeId? addr = some v ↔ (AddrMap.run changes).addrs[v.index]? = some addr) ∧
      s.AnswersAs (Cfg.build changes) ∧
      ∀ c, ∃ s', s.on? c = some ((Cfg.build changes).reply c, s') ∧
        s'.AnswersAs ((Cfg.build changes).apply c) := by
  obtain ⟨s, hrun, hs⟩ := Indexed.keeps_empty.exists_answers? changes
  refine ⟨s, hrun, fun addr v => ?_, hs.answersAs, fun c => ?_⟩
  · have hmap := (changes.foldl Cfg.apply .empty).answers_toAddrMap.nodeId addr v
    rwa [hs.nodeId, ← Cfg.toAddrMap_build]
  · obtain ⟨s', hstep, hs'⟩ := hs.exists_on? c
    exact ⟨s', hstep, hs'.answersAs⟩

/-- An address that an edge has led to is found when it is mentioned again. -/
example : (Indexed.answers? {} [.edge "b" "a" none, .node "a", .entry "c"]).map Prod.fst =
    some [.ok (.given (.edge ⟨0⟩)), .ok (.given (.node ⟨1⟩)), .error (.unknownEntry "c")] := by
  decide +kernel

end FlowText
