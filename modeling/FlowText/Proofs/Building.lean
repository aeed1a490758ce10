import FlowText.Proofs.Links
import FlowText.Text.Numeral

/-!
# Graphs that are built

`Change` lists the ways to change a graph from outside, and `build` is the graph after any list of
them; a change that is refused leaves the graph as it is. In such a graph every block stands at its
own address, and every number is one that the machine has (`Built`): a step keeps both
(`built_apply`), so every run does (`built_build`).
-/

namespace FlowText

/-- **Changes.** What can be done to a graph. A number is one of the machine. -/
inductive Change where
  | node (addr : String)
  | block (b : Block)
  | edge (source target : String) (cond : Option Cond)
  | edgeCond (source target : String) (cond : Option Cond)
  | number (addr : String) (number : Option UInt64)
  | entry (addr : String)
  | postorder

namespace Cfg

/-- **Step.** Changes a graph. A change that is refused leaves it as it is. -/
def apply (g : Cfg) : Change → Cfg
  | .node addr => (g.ensureNode addr).2
  | .block b => ((g.addBlock b).toOption.map Prod.snd).getD g
  | .edge source target cond => (g.addEdge source target cond).2
  | .edgeCond source target cond => (g.setEdgeCond source target cond).toOption.getD g
  | .number addr number => (g.setNumber addr (number.map UInt64.toNat)).toOption.getD g
  | .entry addr => (g.setEntry addr).toOption.getD g
  | .postorder => g.numberPostorder.2

/-- **Run.** The graph after a list of changes. -/
def build (changes : List Change) : Cfg := changes.foldl apply empty

/-! ### What holds of a node -/

/-- The block of the node stands at its address, and the number is one of the machine or at most
`count`. -/
structure NodeBuilt (count : Nat) (n : Node) : Prop where
  block_addr : ∀ b ∈ n.block, b.addr = n.addr
  number : ∀ k ∈ n.number, k < wordLimit ∨ k ≤ count

/-- **Built.** All nodes are so for the number of nodes. -/
def Built (g : Cfg) : Prop := ∀ n ∈ g.nodes, NodeBuilt g.nodes.length n

/-- A node that is right for some number of nodes is right for more. -/
theorem NodeBuilt.mono {k m : Nat} {n : Node} (h : NodeBuilt k n) (hkm : k ≤ m) : NodeBuilt m n :=
  ⟨h.block_addr, fun j hj => (h.number j hj).imp_right fun hjk => Nat.le_trans hjk hkm⟩

/-- A node with nothing but its address has nothing wrong. -/
theorem nodeBuilt_fresh (k : Nat) (addr : String) : NodeBuilt k { addr } := ⟨nofun, nofun⟩

/-! ### Steps -/

/-- No node goes away if one is asked for. -/
theorem length_le_touch (nodes : List Node) (addr : String) :
    nodes.length ≤ (touch nodes addr).length := by
  have := (addrs_touch nodes addr).length_le
  rwa [List.length_map, List.length_map] at this

/-- The nodes after a change are those before, but for the one that is changed. -/
theorem mem_nodes_modifyNode {g : Cfg} {v : NodeId} {f : Node → Node} {n : Node}
    (h : n ∈ (g.modifyNode v f).nodes) :
    n ∈ g.nodes ∨ ∃ m, g.nodes[v.index]? = some m ∧ n = { f m with addr := m.addr } := by
  rw [nodes_modifyNode_eq_modify] at h
  obtain ⟨i, hi⟩ := List.mem_iff_getElem?.1 h
  rw [List.getElem?_modify] at hi
  obtain ⟨m, hm, rfl⟩ := Option.map_eq_some_iff.1 hi
  by_cases hv : v.index = i
  · subst hv
    exact .inr ⟨m, hm, by rw [if_pos rfl]⟩
  · rw [if_neg hv]
    exact .inl (List.mem_of_getElem? hm)

/-- A change of a node adds none. -/
theorem length_nodes_modifyNode (g : Cfg) (v : NodeId) (f : Node → Node) :
    (g.modifyNode v f).nodes.length = g.nodes.length := by
  rw [nodes_modifyNode_eq_modify, List.length_modify]

/-- **A fresh node** keeps the graph built. -/
theorem built_touch {g h : Cfg} (hg : g.Built) {addr : String} (hn : h.nodes = touch g.nodes addr) :
    h.Built := by
  intro n hm
  rw [hn] at hm ⊢
  rcases mem_touch hm with hm | rfl
  · exact (hg n hm).mono (length_le_touch _ _)
  · exact nodeBuilt_fresh _ addr

/-- A change of a node that keeps what holds of it. -/
theorem built_modifyNode {g : Cfg} (hg : g.Built) {v : NodeId} {f : Node → Node}
    (hf : ∀ n, g.nodes[v.index]? = some n → NodeBuilt g.nodes.length { f n with addr := n.addr }) :
    (g.modifyNode v f).Built := by
  intro n hm
  rw [length_nodes_modifyNode]
  rcases mem_nodes_modifyNode hm with hm | ⟨m, hget, rfl⟩
  · exact hg n hm
  · exact hf m hget

theorem built_ensureNode {g : Cfg} (hg : g.Built) (addr : String) : (g.ensureNode addr).2.Built :=
  built_touch hg (nodes_ensureNode g addr)

/-- **A block** is put at its own address. -/
theorem built_addBlock {g : Cfg} (hg : g.Built) {b : Block} {p : NodeId × Cfg}
    (h : g.addBlock b = .ok p) : p.2.Built := by
  rw [addBlock] at h
  split at h
  · cases h
  · cases h
    refine built_modifyNode (built_ensureNode hg b.addr) fun n hn => ⟨?_, ?_⟩
    · rintro c ⟨⟩
      -- the node that is changed is the one of the block's address
      obtain ⟨m, hm, ha⟩ := nodeId?_eq_some_iff.1 (g.nodeId?_ensureNode b.addr)
      obtain rfl := Option.some.inj (hm.symm.trans hn)
      exact ha.symm
    · exact (built_ensureNode hg b.addr n (List.mem_of_getElem? hn)).number

/-- **An edge** may add its ends. -/
theorem built_addEdge {g : Cfg} (hg : g.Built) (s t : String) (cond : Option Cond) :
    (g.addEdge s t cond).2.Built := by
  have hnodes : (g.addEdge s t cond).2.nodes = touch (g.ensureNode s).2.nodes t := by
    rw [nodes_addEdge, nodes_ensureNode]
  exact built_touch (built_ensureNode hg s) hnodes

/-- **The condition of an edge** is no part of a node. -/
theorem built_setEdgeCond {g h : Cfg} (hg : g.Built) {s t : String} {cond : Option Cond}
    (hh : g.setEdgeCond s t cond = .ok h) : h.Built := by
  rw [setEdgeCond] at hh
  split at hh
  · cases hh
    exact hg
  · cases hh

/-- **A number** is one of the machine. -/
theorem built_setNumber {g h : Cfg} (hg : g.Built) {addr : String} {number : Option Nat}
    (hn : ∀ k ∈ number, k < wordLimit) (hh : g.setNumber addr number = .ok h) : h.Built := by
  rw [setNumber] at hh
  split at hh
  · cases hh
    refine built_modifyNode hg fun n hm => ⟨?_, fun k hk => .inl (hn k hk)⟩
    exact (hg n (List.mem_of_getElem? hm)).block_addr
  · cases hh

/-- **The entry** is no part of a node. -/
theorem built_setEntry {g h : Cfg} (hg : g.Built) {addr : String} (hh : g.setEntry addr = .ok h) :
    h.Built := by
  rw [setEntry] at hh
  split at hh
  · cases hh
    exact hg
  · cases hh

/-! ### Numbering -/

/-- A change of all nodes leaves their addresses. -/
theorem nodes_mapNodes (g : Cfg) (f : Node → Node) :
    (g.mapNodes f).nodes = g.nodes.map fun n => { f n with addr := n.addr } := by
  simp [nodes, mapNodes, Digraph.mapNodes]

/-- So the addresses are as before. -/
theorem addrs_mapNodes (g : Cfg) (f : Node → Node) :
    (g.mapNodes f).nodes.map Node.addr = g.nodes.map Node.addr := by
  rw [nodes_mapNodes, List.map_map]
  rfl

/-- Giving numbers that are at most the number of nodes. The induction is on the nodes to be
numbered. -/
theorem built_foldl_number {l : List (NodeId × Nat)} {g : Cfg} (hg : g.Built)
    (hl : ∀ p ∈ l, p.2 + 1 ≤ g.nodes.length) :
    (l.foldl (fun g (v, i) => g.modifyNode v fun n => { n with number := some (i + 1) })
      g).Built := by
  induction l generalizing g with
  | nil => exact hg
  | cons p l ih =>
    refine ih (built_modifyNode hg fun n hn => ⟨?_, ?_⟩) fun q hq => ?_
    · exact (hg n (List.mem_of_getElem? hn)).block_addr
    · rintro k ⟨⟩
      exact .inr (hl p List.mem_cons_self)
    · rw [length_nodes_modifyNode]
      exact hl q (List.mem_cons_of_mem _ hq)

end Cfg

namespace Digraph

variable {ν ε : Type}

/-- How many nodes of a stack are still to be listed. -/
def leaving : List Visit → Nat
  | [] => 0
  | .enter _ :: stack => leaving stack
  | .leave _ :: stack => leaving stack + 1

/-- Nodes that are still to be entered are not listed by then. -/
theorem leaving_enter_append (vs : List NodeId) (stack : List Visit) :
    leaving (vs.map .enter ++ stack) = leaving stack := by
  induction vs with
  | nil => rfl
  | cons v vs ih => exact ih

/-- A walk lists no more nodes than there are to be listed and to be entered. -/
theorem length_walk_le (g : Digraph ν ε) (seen : List NodeId) (stack : List Visit) :
    (g.walk seen stack).length ≤ (g.unseen seen).length + leaving stack := by
  fun_induction walk g seen stack with
  | case1 => exact Nat.zero_le _
  | case2 seen v stack ih =>
    rw [List.length_cons, leaving]
    omega
  | case3 seen v stack h hlt ih =>
    rw [leaving_enter_append, leaving] at ih
    rw [leaving]
    omega
  | case4 seen v stack h ih => exact ih

/-- No walk lists more nodes than there are. -/
theorem length_postorder_le (g : Digraph ν ε) (start : NodeId) :
    (g.postorder start).length ≤ g.nodeCount := by
  have hall : (g.unseen []).length ≤ g.nodeCount := by
    have := List.length_filter_le (fun v => decide (v ∉ ([] : List NodeId))) g.nodeIds
    rwa [nodeIds, List.length_map, List.length_range] at this
  exact Nat.le_trans (g.length_walk_le [] [.enter start]) hall

end Digraph

namespace Cfg

/-- **The numbering** goes up to the number of nodes at most. -/
theorem built_numberPostorder {g : Cfg} (hg : g.Built) : g.numberPostorder.2.Built := by
  have hclear : (g.mapNodes fun n => { n with number := none }).Built := by
    intro n hn
    rw [nodes_mapNodes, List.length_map] at *
    obtain ⟨m, hm, rfl⟩ := List.mem_map.1 hn
    exact ⟨(hg m hm).block_addr, nofun⟩
  have hlength : ∀ order : List NodeId, order.length ≤ g.nodes.length →
      (g.numberNodes order).Built := by
    intro order hle
    refine built_foldl_number hclear fun p hp => ?_
    have hlt := (List.mem_zipIdx' hp).1
    rw [nodes_mapNodes, List.length_map]
    omega
  refine hlength _ ?_
  cases g.entryId? with
  | none => exact Nat.zero_le _
  | some v => exact g.graph.length_postorder_le v

/-! ### Runs -/

/-- A change that is refused leaves the graph built. -/
theorem built_getD {g : Cfg} {r : Except GraphError Cfg} (hg : g.Built)
    (h : ∀ g', r = .ok g' → g'.Built) : (r.toOption.getD g).Built := by
  cases r with
  | error e => exact hg
  | ok g' => exact h g' rfl

/-- **Step.** A change keeps the graph built. -/
theorem built_apply {g : Cfg} (hg : g.Built) (c : Change) : (g.apply c).Built := by
  cases c with
  | node addr => exact built_ensureNode hg addr
  | block b =>
    rw [apply]
    cases h : g.addBlock b with
    | error e => exact hg
    | ok p => exact built_addBlock hg h
  | edge s t cond => exact built_addEdge hg s t cond
  | edgeCond s t cond => exact built_getD hg fun g' h => built_setEdgeCond hg h
  | number addr number =>
    refine built_getD hg fun g' h => built_setNumber hg (fun k hk => ?_) h
    obtain ⟨m, -, rfl⟩ := Option.map_eq_some_iff.1 hk
    exact m.toNat_lt
  | entry addr => exact built_getD hg fun g' h => built_setEntry hg h
  | postorder => exact built_numberPostorder hg

/-- **Run.** So does any list of changes. -/
theorem built_build (changes : List Change) : (build changes).Built := by
  have hrun : ∀ g : Cfg, g.Built → (changes.foldl apply g).Built := by
    induction changes with
    | nil => exact fun g hg => hg
    | cons c changes ih => exact fun g hg => ih _ (built_apply hg c)
  exact hrun empty fun n hn => absurd hn List.not_mem_nil

end Cfg

end FlowText
