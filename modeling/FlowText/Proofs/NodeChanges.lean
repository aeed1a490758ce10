import FlowText.Proofs.Acting
import FlowText.Proofs.Refinement

/-!
# Changes of what nodes hold

Passes that change blocks and numbers leave the shape of a graph: its addresses, its edges and the
chosen entry (`Cfg.SameShape`). What a graph answers about these stays the same, and so does the
order in which its nodes are numbered. So to number the nodes is to give each the number that the
shape says (`Cfg.numberPostorder_eq_mapNodes`), and to work on every block in natural order is to
change all of them (`Edit.ActsAs.eachBlock`).
-/

namespace FlowText

namespace Cfg

/-- A graph is its nodes, its edges and the chosen entry. -/
theorem eq_of_nodes {g h : Cfg} (hn : h.nodes = g.nodes) (he : h.graph.edges = g.graph.edges)
    (hc : h.chosen = g.chosen) : h = g := by
  obtain ⟨⟨ns, es, _, _⟩, c, _, _, _⟩ := g
  obtain ⟨⟨ms, fs, _, _⟩, d, _, _, _⟩ := h
  obtain rfl : ms = ns := Array.toList_inj.1 hn
  obtain rfl : fs = es := he
  obtain rfl : d = c := hc
  rfl

/-! ### Shape -/

/-- **Same shape.** The graphs agree on their addresses, with their identifiers, on their edges and
on the chosen entry. -/
structure SameShape (g h : Cfg) : Prop where
  addrs : h.nodes.map Node.addr = g.nodes.map Node.addr
  edges : h.graph.edges = g.graph.edges
  chosen : h.chosen = g.chosen

namespace SameShape

variable {g h k : Cfg}

/-- What leaves a graph as it is leaves its shape. -/
theorem refl (g : Cfg) : SameShape g g := ⟨rfl, rfl, rfl⟩

/-- One change after another keeps the shape. -/
theorem trans (hgh : SameShape g h) (hhk : SameShape h k) : SameShape g k :=
  ⟨hhk.addrs.trans hgh.addrs, hhk.edges.trans hgh.edges, hhk.chosen.trans hgh.chosen⟩

/-- Addresses keep their identifiers. -/
theorem nodeId? (hs : SameShape g h) (addr : String) : h.nodeId? addr = g.nodeId? addr := by
  refine Option.ext fun v => ?_
  rw [nodeId?_eq_some_iff, nodeId?_eq_some_iff, ← Option.map_eq_some_iff, ← Option.map_eq_some_iff,
    ← List.getElem?_map, ← List.getElem?_map, hs.addrs]

theorem sortedAddrs (hs : SameShape g h) : h.sortedAddrs = g.sortedAddrs := by
  rw [sortedAddrs_eq, sortedAddrs_eq, hs.addrs]

theorem sortedIds (hs : SameShape g h) : h.sortedIds = g.sortedIds := by
  rw [sortedIds_eq, sortedIds_eq, hs.sortedAddrs]
  exact congrArg (List.filterMap · _) (funext hs.nodeId?)

/-- Blocks stay linked as they were. -/
theorem links (hs : SameShape g h) : h.links = g.links :=
  links_congr hs.edges (hs.addrs ▸ List.prefix_refl _)

/-- A block keeps its successors. -/
theorem succ (hs : SameShape g h) (addr : String) : h.succ addr = g.succ addr := by
  rw [succ_eq, succ_eq, hs.links]

/-- A block keeps its predecessors. -/
theorem pred (hs : SameShape g h) (addr : String) : h.pred addr = g.pred addr := by
  rw [pred_eq, pred_eq, hs.links]

/-- An edge keeps its condition. -/
theorem edgeCond? (hs : SameShape g h) (s t : String) : h.edgeCond? s t = g.edgeCond? s t := by
  rw [edgeCond?_eq, edgeCond?_eq, hs.links]

/-- The entry stays, be it chosen or found. -/
theorem entry? (hs : SameShape g h) : h.entry? = g.entry? := by
  rw [← entry?_toAddrMap, ← entry?_toAddrMap, AddrMap.entry?, AddrMap.entry?, addrs_toAddrMap,
    addrs_toAddrMap, hs.addrs, toAddrMap, toAddrMap, hs.chosen, addrAt_congr hs.addrs]

/-- A walk meets the same nodes in the same order. -/
theorem postorder (hs : SameShape g h) : h.toAddrMap.postorder = g.toAddrMap.postorder := by
  have hsucc : h.toAddrMap.succ = g.toAddrMap.succ := by
    funext addr
    rw [succ_toAddrMap, succ_toAddrMap, hs.succ]
  rw [AddrMap.postorder, AddrMap.postorder, entry?_toAddrMap, entry?_toAddrMap, hs.entry?, hsucc,
    addrs_toAddrMap, addrs_toAddrMap, hs.addrs]

end SameShape

/-- A change of all nodes leaves their addresses, and so the shape. -/
theorem sameShape_mapNodes (g : Cfg) (f : Node → Node) : SameShape g (g.mapNodes f) :=
  ⟨addrs_mapNodes g f, rfl, rfl⟩

/-- A change of all blocks leaves the shape. -/
theorem sameShape_mapBlocks (g : Cfg) (f : Block → Block) : SameShape g (g.mapBlocks f) :=
  sameShape_mapNodes g _

/-- A change of one node leaves the shape. -/
theorem sameShape_modifyNode (g : Cfg) (v : NodeId) (f : Node → Node) :
    SameShape g (g.modifyNode v f) :=
  ⟨addrs_modifyNode g v f, rfl, rfl⟩

/-- What keeps the shape once keeps it any number of times. -/
theorem SameShape.foldl {α : Type} {f : Cfg → α → Cfg}
    (hf : ∀ g a, SameShape g (f g a)) (l : List α) (g : Cfg) : SameShape g (l.foldl f g) := by
  induction l generalizing g with
  | nil => exact .refl g
  | cons a l ih => exact (hf g a).trans (ih _)

/-- Numbers are no part of the shape. -/
theorem sameShape_numberPostorder (g : Cfg) : SameShape g g.numberPostorder.2 := by
  rw [numberPostorder_eq]
  refine (sameShape_mapNodes g _).trans (.foldl (fun g p => ?_) _ _)
  exact sameShape_modifyNode g p.1 _

/-- Two changes of all nodes are one. -/
theorem mapNodes_mapNodes (g : Cfg) (f f' : Node → Node) :
    (g.mapNodes f).mapNodes f' =
      g.mapNodes fun n => { f' { f n with addr := n.addr } with addr := n.addr } := by
  refine eq_of_nodes ?_ rfl rfl
  rw [nodes_mapNodes, nodes_mapNodes, nodes_mapNodes, List.map_map]
  rfl

/-- Two changes of all nodes that agree on the nodes there are, but for the address, are the
same. -/
theorem mapNodes_congr {g : Cfg} {f f' : Node → Node}
    (h : ∀ n ∈ g.nodes, ({ f n with addr := n.addr } : Node) = { f' n with addr := n.addr }) :
    g.mapNodes f = g.mapNodes f' := by
  refine eq_of_nodes ?_ rfl rfl
  rw [nodes_mapNodes, nodes_mapNodes]
  exact List.map_congr_left h

/-- A change of all nodes that leaves the graph leaves every node. -/
theorem mapNodes_eq_self_iff {g : Cfg} {f : Node → Node} :
    g.mapNodes f = g ↔ ∀ n ∈ g.nodes, ({ f n with addr := n.addr } : Node) = n := by
  constructor
  · intro h n hn
    have hnodes := congrArg nodes h
    rw [nodes_mapNodes] at hnodes
    exact List.map_inj_left.1 (hnodes.trans (List.map_id _).symm) n hn
  · intro h
    refine eq_of_nodes ?_ rfl rfl
    rw [nodes_mapNodes]
    exact (List.map_congr_left h).trans (List.map_id _)

/-- Two changes of a node that agree on it, but for the address, are the same. -/
theorem modifyNode_congr {g : Cfg} {v : NodeId} {f f' : Node → Node}
    (h : ∀ n, g.nodes[v.index]? = some n →
      ({ f n with addr := n.addr } : Node) = { f' n with addr := n.addr }) :
    g.modifyNode v f = g.modifyNode v f' := by
  refine eq_of_nodes ?_ rfl rfl
  rw [nodes_modifyNode_eq_modify, nodes_modifyNode_eq_modify]
  refine List.ext_getElem? fun i => ?_
  rw [List.getElem?_modify, List.getElem?_modify]
  by_cases hi : v.index = i
  · subst hi
    cases hn : g.nodes[v.index]? with
    | none => rfl
    | some n => simpa using h n hn
  · simp [hi]

/-- A change of a node that leaves the graph leaves the node. -/
theorem modifyNode_eq_self_iff {g : Cfg} {v : NodeId} {f : Node → Node} :
    g.modifyNode v f = g ↔
      ∀ n, g.nodes[v.index]? = some n → ({ f n with addr := n.addr } : Node) = n := by
  constructor
  · intro h n hn
    have hget := congrArg (fun g : Cfg => g.nodes[v.index]?) h
    rw [nodes_modifyNode_eq_modify, List.getElem?_modify, hn] at hget
    simpa using hget
  · intro h
    have hid : g.modifyNode v id = g := by
      refine eq_of_nodes ?_ rfl rfl
      rw [nodes_modifyNode_eq_modify]
      exact List.modify_id _ _
    have hcongr : g.modifyNode v f = g.modifyNode v id := modifyNode_congr h
    exact hcongr.trans hid

/-! ### Numbers -/

/-- The number that the shape of the graph gives an address. -/
def orderNumber (g : Cfg) (addr : String) : Option Nat :=
  if addr ∈ g.toAddrMap.postorder then some (g.toAddrMap.postorder.idxOf addr + 1) else none

/-- Graphs of the same shape are numbered in the same way. -/
theorem SameShape.orderNumber {g h : Cfg} (hs : SameShape g h) (addr : String) :
    h.orderNumber addr = g.orderNumber addr := by
  rw [Cfg.orderNumber, Cfg.orderNumber, hs.postorder]

/-- **Numbering** gives every node the number that the shape says. -/
theorem numberPostorder_eq_mapNodes (g : Cfg) :
    g.numberPostorder.2 = g.mapNodes fun n => { n with number := g.orderNumber n.addr } := by
  have hs := sameShape_numberPostorder g
  refine eq_of_nodes ?_ hs.edges hs.chosen
  rw [← places_map_node, toAddrMap_numberPostorder, AddrMap.number, places_toAddrMap, List.map_map,
    List.map_map, nodes_mapNodes]
  rfl

/-- Numbering again changes nothing. -/
theorem numberPostorder_numberPostorder (g : Cfg) :
    g.numberPostorder.2.numberPostorder.2 = g.numberPostorder.2 := by
  rw [numberPostorder_eq_mapNodes g.numberPostorder.2, mapNodes_eq_self_iff]
  intro n hn
  rw [numberPostorder_eq_mapNodes, nodes_mapNodes] at hn
  obtain ⟨m, -, rfl⟩ := List.mem_map.1 hn
  rw [(sameShape_numberPostorder g).orderNumber]

/-- Numbers and blocks are changed independently. -/
theorem numberPostorder_mapBlocks (g : Cfg) (f : Block → Block) :
    (g.mapBlocks f).numberPostorder.2 = g.numberPostorder.2.mapBlocks f := by
  rw [numberPostorder_eq_mapNodes, numberPostorder_eq_mapNodes, mapBlocks, mapBlocks,
    mapNodes_mapNodes, mapNodes_mapNodes]
  refine mapNodes_congr fun n _ => ?_
  rw [(sameShape_mapNodes g _).orderNumber]

/-- Only numbers are changed. -/
theorem numberPostorder_eq_self_iff {g : Cfg} :
    g.numberPostorder.2 = g ↔ g.numberPostorder.2.numbers = g.numbers := by
  constructor
  · exact congrArg numbers
  · intro h
    rw [numberPostorder_eq_mapNodes] at h ⊢
    change ((g.mapNodes _).nodes.map Node.number) = g.nodes.map Node.number at h
    rw [nodes_mapNodes, List.map_map] at h
    rw [mapNodes_eq_self_iff]
    intro n hn
    have hnumber := List.map_inj_left.1 h n hn
    change g.orderNumber n.addr = n.number at hnumber
    rw [hnumber]

/-! ### Blocks -/

/-- Changes the block of a node, if it has one. -/
def modifyBlockAt (f : Block → Block) (v : NodeId) (g : Cfg) : Cfg :=
  g.modifyNode v fun n => { n with block := n.block.map f }

/-- Only the node in question gets another block. -/
theorem nodes_modifyBlockAt (f : Block → Block) (v : NodeId) (g : Cfg) :
    (g.modifyBlockAt f v).nodes =
      g.nodes.modify v.index fun n => { n with block := n.block.map f } :=
  nodes_modifyNode_eq_modify g v _

/-- A change of the block that is there is a change of the node. -/
theorem modifyBlockAt_of_some {g : Cfg} {v : NodeId} {block : Block} (h : g.blockAt? v = some block)
    (f : Block → Block) :
    g.modifyBlockAt f v = g.modifyNode v fun n => { n with block := some (f block) } := by
  refine modifyNode_congr fun n hn => ?_
  rw [blockAt?, nodeAt?_eq, hn] at h
  change n.block = some block at h
  rw [h]
  rfl

/-- The graph stays if there is no block, or if the block stays. -/
theorem modifyBlockAt_eq_self_iff {f : Block → Block} {v : NodeId} {g : Cfg} :
    g.modifyBlockAt f v = g ↔ ∀ block, g.blockAt? v = some block → f block = block := by
  rw [modifyBlockAt, modifyNode_eq_self_iff]
  constructor
  · intro h block hblock
    rw [blockAt?, nodeAt?_eq] at hblock
    obtain ⟨n, hn, hnb⟩ := Option.bind_eq_some_iff.1 hblock
    have hsame := congrArg Node.block (h n hn)
    rw [hnb] at hsame
    exact Option.some.inj hsame
  · intro h n hn
    obtain ⟨addr, block, number⟩ := n
    cases block with
    | none => rfl
    | some block =>
      have hsame : f block = block := h block (by rw [blockAt?, nodeAt?_eq, hn]; rfl)
      rw [Option.map_some, hsame]

/-- Blocks may be changed one after the other without a change of the shape. -/
theorem sameShape_inTurn_modifyBlockAt (f : Block → Block) (vs : List NodeId) (g : Cfg) :
    SameShape g (inTurn (modifyBlockAt f) vs g) :=
  .foldl (fun g v => sameShape_modifyNode g v _) vs g

/-- If no node is visited twice, every one that is visited has its block changed once. -/
theorem getElem?_inTurn_modifyBlockAt (f : Block → Block) {vs : List NodeId}
    (hn : vs.Nodup) (g : Cfg) (i : Nat) : (inTurn (modifyBlockAt f) vs g).nodes[i]? =
      g.nodes[i]?.map fun n => if ⟨i⟩ ∈ vs then { n with block := n.block.map f } else n := by
  induction vs generalizing g with
  | nil => simp [inTurn]
  | cons v vs ih =>
    obtain ⟨hv, hn'⟩ := List.nodup_cons.1 hn
    change (inTurn (modifyBlockAt f) vs (g.modifyBlockAt f v)).nodes[i]? = _
    rw [ih hn', nodes_modifyBlockAt, List.getElem?_modify]
    cases g.nodes[i]? with
    | none => rfl
    | some n =>
      by_cases hi : v.index = i
      · obtain rfl : v = ⟨i⟩ := congrArg NodeId.mk hi
        simp [hv]
      · have hne : (⟨i⟩ : NodeId) ≠ v := fun h => hi (h ▸ rfl)
        simp [hi, hne]

/-- The sorted identifiers are those of all nodes. -/
theorem mem_sortedIds {g : Cfg} {v : NodeId} : v ∈ g.sortedIds ↔ v.index < g.graph.nodes.size := by
  refine ⟨lt_of_mem_sortedIds, fun h => ?_⟩
  obtain ⟨w, hw, haddr⟩ := List.mem_map.1 (mem_sortedAddrs.2 (addrAt_mem h))
  exact addrAt_inj (lt_of_mem_sortedIds hw) h haddr ▸ hw

theorem nodup_sortedIds (g : Cfg) : g.sortedIds.Nodup := .of_map _ g.nodup_sortedAddrs

/-- Each block in turn is every block. -/
theorem inTurn_sortedIds (f : Block → Block) (g : Cfg) :
    inTurn (modifyBlockAt f) g.sortedIds g = g.mapBlocks f := by
  have hs := sameShape_inTurn_modifyBlockAt f g.sortedIds g
  refine eq_of_nodes ?_ hs.edges hs.chosen
  refine List.ext_getElem? fun i => ?_
  rw [getElem?_inTurn_modifyBlockAt f g.nodup_sortedIds, mapBlocks, nodes_mapNodes,
    List.getElem?_map]
  cases hi : g.nodes[i]? with
  | none => rfl
  | some n =>
    have hlt : i < g.graph.nodes.size := (List.getElem?_eq_some_iff.1 hi).1
    rw [Option.map_some, if_pos (mem_sortedIds.2 hlt), Option.map_some]

/-- The number of all instructions. -/
def instCount (g : Cfg) : Nat := (g.blocks.map fun b => b.insts.length).sum

/-- The number of instructions in the blocks of a list of nodes. -/
def instsIn (nodes : List Node) : Nat :=
  ((nodes.filterMap Node.block).map fun b => b.insts.length).sum

/-- The first node adds the instructions of its block. -/
theorem instsIn_cons (n : Node) (nodes : List Node) :
    instsIn (n :: nodes) = (n.block.map fun b => b.insts.length).getD 0 + instsIn nodes := by
  cases h : n.block <;> simp [instsIn, h]

/-- A block that changes and loses instructions makes for fewer instructions. -/
theorem descends_modify {f : Block → Block} (hf : Descends (fun b => b.insts.length) f) (i : Nat) :
    Descends instsIn fun nodes => nodes.modify i fun n => { n with block := n.block.map f } := by
  intro nodes h
  change nodes.modify i _ ≠ nodes at h
  change instsIn (nodes.modify i _) < instsIn nodes
  induction nodes generalizing i with
  | nil => exact absurd (List.modify_nil _ i) h
  | cons n nodes ih =>
    cases i with
    | succ i =>
      rw [List.modify_succ_cons] at h ⊢
      have := ih i fun heq => h (congrArg _ heq)
      rw [instsIn_cons, instsIn_cons]
      omega
    | zero =>
      rw [List.modify_zero_cons] at h ⊢
      rw [instsIn_cons, instsIn_cons]
      obtain ⟨addr, block, number⟩ := n
      cases block with
      | none => exact absurd rfl h
      | some b =>
        have := hf b fun heq => h (by simp [heq])
        simpa using this

/-- What takes instructions from a block takes them from the graph. -/
theorem descends_modifyBlockAt {f : Block → Block} (hf : Descends (fun b => b.insts.length) f)
    (v : NodeId) : Descends instCount (modifyBlockAt f v) := by
  intro g h
  have hnodes := nodes_modifyBlockAt f v g
  have hlt : instsIn (g.modifyBlockAt f v).nodes < instsIn g.nodes := by
    rw [hnodes]
    exact descends_modify hf v.index g.nodes fun heq => h (eq_of_nodes (hnodes.trans heq) rfl rfl)
  exact hlt

/-- What takes instructions from every block takes them from the graph. -/
theorem descends_mapBlocks {f : Block → Block} (hf : Descends (fun b => b.insts.length) f) :
    Descends instCount fun g => g.mapBlocks f := by
  intro g h
  have hturn : Descends instCount (inTurn (modifyBlockAt f) g.sortedIds) :=
    .inTurn fun v _ => descends_modifyBlockAt hf v
  have hlt := hturn g
  rw [inTurn_sortedIds] at hlt
  exact hlt h

end Cfg

/-! ### Work on blocks -/

namespace Edit

variable {σ : Type} {work : Edit σ Block Bool} {f : Block → Block}

/-- Work on a block acts on the graph by way of the node that holds the block. -/
theorem ActsAs.atNode (h : work.ActsAs f) (v : NodeId) :
    (work.atNode v).ActsAs (Cfg.modifyBlockAt f v) := by
  intro b
  cases hv : b.subject.blockAt? v with
  | none =>
    have hsame : b.subject.modifyBlockAt f v = b.subject :=
      Cfg.modifyBlockAt_eq_self_iff.2 fun block hblock => by cases hv.symm.trans hblock
    exact ⟨false, b.log, by rw [on_atNode_of_none hv, hsame], by simp [hsame]⟩
  | some block =>
    obtain ⟨changed, log, hwork, hchanged⟩ := h { b with subject := block }
    refine ⟨changed, log, ?_, hchanged.trans (not_congr ?_)⟩
    · rw [on_atNode_of_some hv, hwork, Cfg.modifyBlockAt_of_some hv]
    · rw [Cfg.modifyBlockAt_eq_self_iff]
      refine ⟨fun hsame c hc => ?_, fun hall => hall block hv⟩
      obtain rfl := Option.some.inj (hv.symm.trans hc)
      exact hsame

/-- **Each block.** Work on a block, done at each node, acts on all blocks at once. -/
theorem ActsAs.eachBlock (h : work.ActsAs f) (hf : Descends (fun b => b.insts.length) f) :
    work.eachBlock.ActsAs fun g => g.mapBlocks f := by
  intro b
  have hturn : (Edit.anyChange b.subject.sortedIds fun v => work.atNode v).ActsAs
      (inTurn (Cfg.modifyBlockAt f) b.subject.sortedIds) :=
    .anyChange (fun v _ => h.atNode v) fun v _ => Cfg.descends_modifyBlockAt hf v
  have hacts := hturn b
  rw [Cfg.inTurn_sortedIds] at hacts
  rw [Edit.eachBlock, on_bind_of_ok (on_subject b)]
  exact hacts

end Edit

end FlowText
