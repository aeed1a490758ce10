import FlowText.Cfg
import FlowText.Proofs.NameOrder

/-!
# Graphs by address

Identifiers number the nodes in the order of addition; what a graph answers speaks of addresses.
Here a graph is its nodes, each known by its address, and its links, which are the edges with
addresses at their ends.

* `succ_eq`, `pred_eq`, `edgeCond?_eq`, `node?_eq`, `sortedAddrs_eq` — every answer is found from
  the nodes and the links.
* `nodes_ensureNode`, `links_addEdge` and the like — what each operation does to them.
-/

namespace FlowText

/-! ### The empty graph -/

/-- The graph without nodes. -/
def Digraph.empty {ν ε : Type} : Digraph ν ε := {}

/-- Without a chosen entry there is nothing to be a node. -/
theorem Cfg.chosen_lt_of_none {count : Nat} : ∀ v ∈ (none : Option NodeId), v.index < count := by
  intro v hv
  cases hv

/-- The graph without nodes. -/
def Cfg.empty : Cfg where
  graph := .empty
  addrs_nodup := List.nodup_nil
  ends_nodup := List.nodup_nil
  chosen_lt := chosen_lt_of_none

/-! ### Lists of links and of nodes -/

/-- An edge with the addresses at its ends. -/
structure Link where
  source : String
  target : String
  cond : Option Cond

/-- Where a link leaves and where it leads. -/
def Link.ends (l : Link) : String × String := (l.source, l.target)

/-- Adds a link. One that is there already keeps its place and gets the new condition. -/
def putLink (links : List Link) (l : Link) : List Link :=
  if links.any (·.ends == l.ends) then links.map fun m => if m.ends = l.ends then l else m
  else links ++ [l]

/-- The check that a link makes before it is put is membership of its ends. -/
theorem any_ends_eq_true_iff {links : List Link} {p : String × String} :
    links.any (·.ends == p) = true ↔ p ∈ links.map Link.ends := by
  rw [List.any_eq_true, List.mem_map]
  simp

/-- A link whose ends are there takes the place of the one that has them. -/
theorem putLink_of_mem {links : List Link} {l : Link} (h : l.ends ∈ links.map Link.ends) :
    putLink links l = links.map fun m => if m.ends = l.ends then l else m := by
  rw [putLink, if_pos (any_ends_eq_true_iff.2 h)]

/-- A link with new ends comes last. -/
theorem putLink_of_not_mem {links : List Link} {l : Link} (h : l.ends ∉ links.map Link.ends) :
    putLink links l = links ++ [l] := by
  rw [putLink, if_neg (mt any_ends_eq_true_iff.1 h)]

/-- A link with other ends than all the rest is the only one that another condition is put to. -/
theorem modify_eq_putLink {links : List Link} (hn : (links.map Link.ends).Nodup) {i : Nat}
    {l : Link} (hl : links[i]? = some l) (cond : Option Cond) :
    links.modify i (fun m => { m with cond }) = putLink links { l with cond } := by
  have hmem : Link.ends { l with cond } ∈ links.map Link.ends :=
    List.mem_map.2 ⟨l, List.mem_of_getElem? hl, rfl⟩
  rw [putLink_of_mem hmem]
  refine List.ext_getElem? fun j => ?_
  rw [List.getElem?_modify, List.getElem?_map]
  cases hj : links[j]? with
  | none => rfl
  | some m =>
    by_cases he : i = j
    · subst he
      rw [hl] at hj
      cases hj
      simp [Link.ends]
    -- any other link has other ends, since no ends occur twice
    · have hne : m.ends ≠ Link.ends { l with cond } := by
        intro hm
        have hlt : i < (links.map Link.ends).length := by
          rw [List.length_map]
          exact (List.getElem?_eq_some_iff.1 hl).1
        refine he ((List.getElem?_inj hlt hn).1 ?_)
        rw [List.getElem?_map, List.getElem?_map, hl, hj, Option.map_some, Option.map_some, hm]
        rfl
      simp [he, hne]

/-- What is there after a link has been put was there before, or is that link. -/
theorem mem_putLink {links : List Link} {l m : Link} (h : m ∈ putLink links l) :
    m ∈ links ∨ m = l := by
  rw [putLink] at h
  split at h
  · obtain ⟨k, hk, rfl⟩ := List.mem_map.1 h
    split
    · exact .inr rfl
    · exact .inl hk
  · exact (List.mem_append.1 h).imp_right List.mem_singleton.1

/-- A link stays, or gets another condition. -/
theorem exists_ends_putLink (links : List Link) (l : Link) {m : Link} (h : m ∈ links ∨ m = l) :
    ∃ k ∈ putLink links l, k.ends = m.ends := by
  by_cases hl : l.ends ∈ links.map Link.ends
  · have hm : m.ends ∈ links.map Link.ends := by
      rcases h with h | rfl
      · exact List.mem_map_of_mem h
      · exact hl
    obtain ⟨k, hk, hke⟩ := List.mem_map.1 hm
    rw [putLink_of_mem hl]
    refine ⟨_, List.mem_map_of_mem hk, ?_⟩
    split
    · next heq => exact heq.symm.trans hke
    · exact hke
  · rw [putLink_of_not_mem hl]
    refine ⟨m, ?_, rfl⟩
    exact List.mem_append.2 (h.imp_right List.mem_singleton.2)

/-- Adds a node for an address that has none. -/
def touch (nodes : List Node) (addr : String) : List Node :=
  if nodes.any (·.addr == addr) then nodes else nodes ++ [{ addr := addr }]

/-- What is there after an address has been mentioned was there before, or is a bare node. -/
theorem mem_touch {nodes : List Node} {addr : String} {n : Node} (h : n ∈ touch nodes addr) :
    n ∈ nodes ∨ n = { addr } := by
  rw [touch] at h
  split at h
  · exact .inl h
  · exact (List.mem_append.1 h).imp_right List.mem_singleton.1

/-- An address that has a node is not given a second one. -/
theorem touch_of_mem {nodes : List Node} {addr : String} (h : addr ∈ nodes.map Node.addr) :
    touch nodes addr = nodes := by
  obtain ⟨n, hn, rfl⟩ := List.mem_map.1 h
  exact if_pos (List.any_eq_true.2 ⟨n, hn, beq_self_eq_true n.addr⟩)

namespace Cfg

/-- The nodes, in the order of addition. -/
def nodes (g : Cfg) : List Node := g.graph.nodes.toList

/-- The link of an edge. -/
def linkOf (g : Cfg) (e : Edge (Option Cond)) : Link :=
  ⟨g.addrAt e.source, g.addrAt e.target, e.data⟩

/-- The links, in the order of addition. -/
def links (g : Cfg) : List Link := g.graph.edges.toList.map g.linkOf

/-! ### Identifiers and addresses -/

/-- The identifier of a node is its place in the order of addition. -/
theorem nodeAt?_eq (g : Cfg) (v : NodeId) : g.nodeAt? v = g.nodes[v.index]? := by
  rw [nodeAt?, Digraph.node?, nodes, Array.getElem?_toList]

/-- Two places of one address are one. -/
theorem index_inj {g : Cfg} {i j : Nat} {n m : Node} (hi : g.nodes[i]? = some n)
    (hj : g.nodes[j]? = some m) (h : n.addr = m.addr) : i = j := by
  have hlt : i < (g.nodes.map Node.addr).length := by
    rw [List.length_map]
    exact (List.getElem?_eq_some_iff.1 hi).1
  refine (List.getElem?_inj hlt g.addrs_nodup).1 ?_
  rw [List.getElem?_map, List.getElem?_map, hi, hj, Option.map_some, Option.map_some, h]

/-- **Identifier of an address.** It is the place of a node with this address, of which there is
one. -/
theorem nodeId?_eq_some_iff {g : Cfg} {addr : String} {v : NodeId} :
    g.nodeId? addr = some v ↔ ∃ n, g.nodes[v.index]? = some n ∧ n.addr = addr := by
  constructor
  · intro h
    obtain ⟨i, hi, rfl⟩ := Option.map_eq_some_iff.1 h
    obtain ⟨hlt, hp, -⟩ := Array.findIdx?_eq_some_iff_getElem.1 hi
    refine ⟨_, ?_, by simpa using hp⟩
    rw [nodes, Array.getElem?_toList, Array.getElem?_eq_getElem hlt]
  · rintro ⟨n, hn, rfl⟩
    cases hf : g.nodeId? n.addr with
    | none =>
      have hm : n.addr ∈ g.nodes.map Node.addr :=
        List.mem_map.2 ⟨n, List.mem_of_getElem? hn, rfl⟩
      exact absurd hm (addr_not_mem_of_nodeId? hf)
    | some w =>
      obtain ⟨i, hi, rfl⟩ := Option.map_eq_some_iff.1 hf
      obtain ⟨hlt, hp, -⟩ := Array.findIdx?_eq_some_iff_getElem.1 hi
      have hget : g.nodes[i]? = some g.graph.nodes[i] := by
        rw [nodes, Array.getElem?_toList, Array.getElem?_eq_getElem hlt]
      obtain ⟨k⟩ := v
      rw [index_inj hget hn (by simpa using hp)]

/-- An address without an identifier is that of no node. -/
theorem nodeId?_eq_none_iff {g : Cfg} {addr : String} :
    g.nodeId? addr = none ↔ addr ∉ g.nodes.map Node.addr := by
  refine ⟨addr_not_mem_of_nodeId?, fun h => ?_⟩
  cases hf : g.nodeId? addr with
  | none => rfl
  | some v =>
    obtain ⟨n, hn, rfl⟩ := nodeId?_eq_some_iff.1 hf
    exact absurd (List.mem_map.2 ⟨n, List.mem_of_getElem? hn, rfl⟩) h

/-- A node that is there answers with its own address. -/
theorem addrAt_of_getElem? {g : Cfg} {v : NodeId} {n : Node} (h : g.nodes[v.index]? = some n) :
    g.addrAt v = n.addr := by
  rw [addrAt, nodeAt?_eq, h]
  rfl

/-- From an address to its identifier and back. -/
theorem addrAt_of_nodeId? {g : Cfg} {addr : String} {v : NodeId} (h : g.nodeId? addr = some v) :
    g.addrAt v = addr := by
  obtain ⟨n, hn, rfl⟩ := nodeId?_eq_some_iff.1 h
  exact addrAt_of_getElem? hn

/-- Addresses are read off the list of nodes alone. -/
theorem addrAt_congr {g h : Cfg} (hn : h.nodes.map Node.addr = g.nodes.map Node.addr) :
    h.addrAt = g.addrAt := by
  funext v
  rw [addrAt, addrAt, nodeAt?_eq, nodeAt?_eq, ← List.getElem?_map, ← List.getElem?_map, hn]

/-- Every node of the graph is the node of its address. -/
theorem nodeId?_addrAt {g : Cfg} {v : NodeId} (h : v.index < g.graph.nodes.size) :
    g.nodeId? (g.addrAt v) = some v := by
  have hget : g.nodes[v.index]? = some g.graph.nodes[v.index] := by
    rw [nodes, Array.getElem?_toList, Array.getElem?_eq_getElem h]
  exact nodeId?_eq_some_iff.2 ⟨_, hget, (addrAt_of_getElem? hget).symm⟩

/-- What a node holds may be asked by its identifier or by its address. -/
theorem node?_addrAt {g : Cfg} {v : NodeId} (h : v.index < g.graph.nodes.size) :
    g.node? (g.addrAt v) = g.nodeAt? v := by
  rw [node?, nodeId?_addrAt h, Option.bind_some]

/-- Two nodes of one address are one. -/
theorem addrAt_inj {g : Cfg} {v w : NodeId} (hv : v.index < g.graph.nodes.size)
    (hw : w.index < g.graph.nodes.size) (h : g.addrAt v = g.addrAt w) : v = w := by
  have hid := nodeId?_addrAt hv
  rw [h, nodeId?_addrAt hw] at hid
  exact (Option.some.inj hid).symm

/-- An address names the node that it identifies, and no other one. -/
theorem addrAt_eq_iff {g : Cfg} {addr : String} {v w : NodeId} (h : g.nodeId? addr = some v)
    (hw : w.index < g.graph.nodes.size) : g.addrAt w = addr ↔ w = v := by
  constructor
  · rintro rfl
    exact Option.some.inj ((nodeId?_addrAt hw).symm.trans h)
  · rintro rfl
    exact addrAt_of_nodeId? h

/-- Every node has its address among those of the graph. -/
theorem addrAt_mem {g : Cfg} {v : NodeId} (h : v.index < g.graph.nodes.size) :
    g.addrAt v ∈ g.nodes.map Node.addr := by
  have hget : g.nodes[v.index]? = some g.graph.nodes[v.index] := by
    rw [nodes, Array.getElem?_toList, Array.getElem?_eq_getElem h]
  rw [addrAt_of_getElem? hget]
  exact List.mem_map.2 ⟨_, List.mem_of_getElem? hget, rfl⟩

/-! ### Answers -/

/-- **What an address holds** is the first node with this address. -/
theorem node?_eq (g : Cfg) (addr : String) : g.node? addr = g.nodes.find? (·.addr == addr) := by
  rw [node?]
  cases h : g.nodeId? addr with
  | none =>
    have hn := nodeId?_eq_none_iff.1 h
    symm
    rw [Option.bind_none, List.find?_eq_none]
    intro n hm he
    exact hn (List.mem_map.2 ⟨n, hm, by simpa using he⟩)
  | some v =>
    obtain ⟨n, hn, rfl⟩ := nodeId?_eq_some_iff.1 h
    rw [Option.bind_some, nodeAt?_eq, hn]
    symm
    obtain ⟨hlt, hget⟩ := List.getElem?_eq_some_iff.1 hn
    refine List.find?_eq_some_iff_getElem.2 ⟨by simp, v.index, hlt, hget, fun j hj => ?_⟩
    have hjlt : j < g.nodes.length := Nat.lt_trans hj hlt
    -- no node in front of this one has its address
    have hj' : g.nodes[j]? = some g.nodes[j] := List.getElem?_eq_getElem hjlt
    have hne : g.nodes[j].addr ≠ n.addr := fun he => by
      have := index_inj hj' hn he
      omega
    simpa using hne

/-- The links at an address are those of the edges at its node, at either end. -/
theorem filter_links_of_nodeId? {g : Cfg} {addr : String} {v : NodeId} (h : g.nodeId? addr = some v)
    (side : Edge (Option Cond) → NodeId) (name : Link → String)
    (hname : ∀ e, name (g.linkOf e) = g.addrAt (side e))
    (hlt : ∀ e ∈ g.graph.edges, (side e).index < g.graph.nodes.size) :
    g.links.filter (name · == addr) = (g.graph.edges.toList.filter (side · == v)).map g.linkOf := by
  rw [links, List.filter_map]
  refine congrArg (List.map g.linkOf) (List.filter_congr fun e hm => ?_)
  rw [Bool.eq_iff_iff]
  simpa [hname] using addrAt_eq_iff h (hlt e (Array.mem_def.2 hm))

/-- No link is at an address that has no node. -/
theorem filter_links_eq_nil {g : Cfg} {addr : String} (h : g.nodeId? addr = none)
    (side : Edge (Option Cond) → NodeId) (name : Link → String)
    (hname : ∀ e, name (g.linkOf e) = g.addrAt (side e))
    (hlt : ∀ e ∈ g.graph.edges, (side e).index < g.graph.nodes.size) :
    g.links.filter (name · == addr) = [] := by
  rw [List.filter_eq_nil_iff]
  intro l hl he
  obtain ⟨e, hm, rfl⟩ := List.mem_map.1 hl
  have haddr : g.addrAt (side e) = addr := by simpa [hname] using he
  exact nodeId?_eq_none_iff.1 h (haddr ▸ addrAt_mem (hlt e (Array.mem_def.2 hm)))

/-- **Successors.** The targets of the links that leave the address, in their order. -/
theorem succ_eq (g : Cfg) (addr : String) :
    g.succ addr = (g.links.filter (·.source == addr)).map Link.target := by
  rw [succ]
  cases h : g.nodeId? addr with
  | none =>
    rw [filter_links_eq_nil h Edge.source Link.source (fun _ => rfl) g.graph.source_lt]
    rfl
  | some v =>
    rw [filter_links_of_nodeId? h Edge.source Link.source (fun _ => rfl) g.graph.source_lt,
      List.map_map]
    change (List.map Edge.target _).map g.addrAt = _
    rw [List.map_map]
    rfl

/-- **Predecessors.** The sources of the links that lead to the address, in their order. -/
theorem pred_eq (g : Cfg) (addr : String) :
    g.pred addr = (g.links.filter (·.target == addr)).map Link.source := by
  rw [pred]
  cases h : g.nodeId? addr with
  | none =>
    rw [filter_links_eq_nil h Edge.target Link.target (fun _ => rfl) g.graph.target_lt]
    rfl
  | some v =>
    rw [filter_links_of_nodeId? h Edge.target Link.target (fun _ => rfl) g.graph.target_lt,
      List.map_map]
    change (List.map Edge.source _).map g.addrAt = _
    rw [List.map_map]
    rfl

/-- Links lead between addresses of the graph, since edges lead between its nodes. -/
theorem mem_links {g : Cfg} {l : Link} (h : l ∈ g.links) :
    l.source ∈ g.nodes.map Node.addr ∧ l.target ∈ g.nodes.map Node.addr := by
  obtain ⟨e, hm, rfl⟩ := List.mem_map.1 h
  exact ⟨addrAt_mem (g.graph.source_lt e (Array.mem_def.2 hm)),
    addrAt_mem (g.graph.target_lt e (Array.mem_def.2 hm))⟩

/-- An edge leads from one node to another if its link does so for their addresses. -/
theorem ends_linkOf {g : Cfg} {s t : String} {v w : NodeId} (hs : g.nodeId? s = some v)
    (ht : g.nodeId? t = some w) {e : Edge (Option Cond)} (he : e ∈ g.graph.edges.toList) :
    (e.ends == (v, w)) = ((g.linkOf e).ends == (s, t)) := by
  have hsource := addrAt_eq_iff hs (g.graph.source_lt e (Array.mem_def.2 he))
  have htarget := addrAt_eq_iff ht (g.graph.target_lt e (Array.mem_def.2 he))
  rw [Bool.eq_iff_iff]
  simp [Edge.ends, Link.ends, linkOf, hsource, htarget]

/-- A search only asks about members. -/
theorem find?_congr_of_mem {α : Type} {p q : α → Bool} {l : List α} (h : ∀ a ∈ l, p a = q a) :
    l.find? p = l.find? q := by
  induction l with
  | nil => rfl
  | cons a l ih =>
    rw [List.find?_cons, List.find?_cons, h a List.mem_cons_self,
      ih fun b hb => h b (List.mem_cons_of_mem _ hb)]

/-- **Condition of an edge.** It is found at the first link with these ends. -/
theorem edgeCond?_eq (g : Cfg) (s t : String) :
    g.edgeCond? s t = (g.links.find? (·.ends == (s, t))).bind Link.cond := by
  have hnone : (s ∉ g.nodes.map Node.addr ∨ t ∉ g.nodes.map Node.addr) →
      g.links.find? (·.ends == (s, t)) = none := by
    intro h
    rw [List.find?_eq_none]
    intro l hl he
    obtain ⟨rfl, rfl⟩ : l.source = s ∧ l.target = t := by simpa [Link.ends] using he
    exact h.elim (absurd (mem_links hl).1) (absurd (mem_links hl).2)
  cases hs : g.nodeId? s with
  | none =>
    rw [hnone (.inl (nodeId?_eq_none_iff.1 hs)), edgeCond?, edgeId?, hs]
    rfl
  | some v =>
    cases ht : g.nodeId? t with
    | none =>
      rw [hnone (.inr (nodeId?_eq_none_iff.1 ht)), edgeCond?, edgeId?, hs, ht]
      rfl
    | some w =>
      have hf : g.links.find? (·.ends == (s, t)) =
          (g.graph.edges.toList.find? fun e => e.ends == (v, w)).map g.linkOf := by
        rw [links, List.find?_map]
        exact congrArg _ (find?_congr_of_mem fun e he => (ends_linkOf hs ht he).symm)
      -- the edge and its link are found at the same place
      have hid : g.edgeId? s t = g.graph.findEdge? v w := by
        rw [edgeId?, hs, ht]
        rfl
      rw [hf, edgeCond?, hid, Array.find?_toList, Array.find?_eq_bind_findIdx?_getElem?,
        Digraph.findEdge?]
      cases g.graph.edges.findIdx? fun e => e.ends == (v, w) with
      | none => rfl
      | some i =>
        simp only [Option.map_some, Option.bind_some, Digraph.edge?]
        cases g.graph.edges[i]? <;> rfl

/-- **Sorted addresses.** To sort the nodes by their addresses is to sort the addresses. -/
theorem sortedAddrs_eq (g : Cfg) : g.sortedAddrs = sortNatural (g.nodes.map Node.addr) := by
  have hnames : g.graph.nodeList.map (fun p => p.2.addr) = g.nodes.map Node.addr := by
    have hfst := congrArg (List.map Node.addr) (List.zipIdx_map_fst 0 g.nodes)
    rw [List.map_map] at hfst
    rw [← hfst, Digraph.nodeList, List.map_map]
    rfl
  -- the pairs are sorted by their addresses, so the numbers come along
  have haddr : ∀ p ∈ g.graph.nodeList, g.addrAt p.1 = p.2.addr := by
    intro p hp
    obtain ⟨⟨n, i⟩, hm, rfl⟩ := List.mem_map.1 hp
    exact addrAt_of_getElem? (List.mem_zipIdx_iff_getElem?.1 hm)
  have hsort : (sortByName (fun p => p.2.addr) g.graph.nodeList).map (fun p => p.2.addr) =
      sortNatural (g.graph.nodeList.map fun p => p.2.addr) :=
    List.map_mergeSort fun _ _ _ _ => rfl
  rw [sortedAddrs, sortedIds, List.map_map, ← hnames, ← hsort]
  refine List.map_congr_left fun p hp => haddr p ?_
  exact (List.mergeSort_perm _ _).mem_iff.1 hp

/-- Sorting brings in no identifier that is not one of the graph. -/
theorem lt_of_mem_sortedIds {g : Cfg} {v : NodeId} (h : v ∈ g.sortedIds) :
    v.index < g.graph.nodes.size := by
  obtain ⟨p, hp, rfl⟩ := List.mem_map.1 h
  obtain ⟨q, hq, rfl⟩ := List.mem_map.1 ((List.mergeSort_perm _ _).mem_iff.1 hp)
  exact (List.mem_zipIdx' hq).1

/-- The order of the nodes is that of their addresses. -/
theorem sortedIds_eq (g : Cfg) : g.sortedIds = g.sortedAddrs.filterMap g.nodeId? := by
  rw [sortedAddrs, List.filterMap_map, List.filterMap_congr (g := some), List.filterMap_some]
  exact fun v hv => nodeId?_addrAt (lt_of_mem_sortedIds hv)

/-- Sorting loses no address and brings in none. -/
theorem mem_sortedAddrs {g : Cfg} {addr : String} :
    addr ∈ g.sortedAddrs ↔ addr ∈ g.nodes.map Node.addr := by
  rw [sortedAddrs_eq]
  exact (List.mergeSort_perm _ _).mem_iff

/-- Every address is listed once. -/
theorem nodup_sortedAddrs (g : Cfg) : g.sortedAddrs.Nodup := by
  rw [sortedAddrs_eq]
  exact (List.mergeSort_perm _ _).nodup_iff.2 g.addrs_nodup

/-- At most one link leads from one address to another. -/
theorem nodup_ends (g : Cfg) : (g.links.map Link.ends).Nodup := by
  rw [links, List.map_map]
  have hn := g.ends_nodup
  rw [List.nodup_iff_pairwise_ne, List.pairwise_map] at hn ⊢
  refine hn.imp_of_mem fun {e f} he hf hne heq => hne ?_
  obtain ⟨hs, ht⟩ := Prod.mk.inj heq
  exact Prod.ext
    (addrAt_inj (g.graph.source_lt e (Array.mem_def.2 he))
      (g.graph.source_lt f (Array.mem_def.2 hf)) hs)
    (addrAt_inj (g.graph.target_lt e (Array.mem_def.2 he))
      (g.graph.target_lt f (Array.mem_def.2 hf)) ht)

/-! ### Nodes and links by address -/

/-- An address holds a node if and only if that is a node of the graph with this address. -/
theorem node?_eq_some_iff {g : Cfg} {addr : String} {n : Node} :
    g.node? addr = some n ↔ n ∈ g.nodes ∧ n.addr = addr := by
  constructor
  · intro h
    rw [node?_eq] at h
    exact ⟨List.mem_of_find?_eq_some h, by simpa using List.find?_some h⟩
  · rintro ⟨hm, rfl⟩
    obtain ⟨i, hi⟩ := List.mem_iff_getElem?.1 hm
    have hid : g.nodeId? n.addr = some ⟨i⟩ := nodeId?_eq_some_iff.2 ⟨n, hi, rfl⟩
    rw [node?, hid, Option.bind_some, nodeAt?_eq, hi]

/-- What is not listed holds nothing. -/
theorem node?_eq_none {g : Cfg} {addr : String} (h : addr ∉ g.sortedAddrs) :
    g.node? addr = none := by
  cases hn : g.node? addr with
  | none => rfl
  | some n =>
    obtain ⟨hm, rfl⟩ := node?_eq_some_iff.1 hn
    exact absurd (mem_sortedAddrs.2 (List.mem_map_of_mem hm)) h

/-- There is a successor where there is a link. -/
theorem mem_succ_iff {g : Cfg} {s t : String} :
    t ∈ g.succ s ↔ ∃ l ∈ g.links, l.source = s ∧ l.target = t := by
  simp only [succ_eq, List.mem_map, List.mem_filter, beq_iff_eq, and_assoc]

/-- **Transpose.** Predecessors are successors seen from the other end. -/
theorem mem_pred_iff {g : Cfg} {s t : String} : s ∈ g.pred t ↔ t ∈ g.succ s := by
  simp only [pred_eq, mem_succ_iff, List.mem_map, List.mem_filter, beq_iff_eq, and_assoc]
  exact exists_congr fun l => and_congr_right fun _ => and_comm

/-- Two links with the same ends are one. -/
theorem link_inj {g : Cfg} {l m : Link} (hl : l ∈ g.links) (hm : m ∈ g.links)
    (h : l.ends = m.ends) : l = m :=
  List.inj_on_of_nodup_map g.nodup_ends hl hm h

/-- Since no ends occur twice, a link tells the condition of its edge. -/
theorem edgeCond?_of_mem {g : Cfg} {l : Link} (h : l ∈ g.links) :
    g.edgeCond? l.source l.target = l.cond := by
  rw [edgeCond?_eq]
  cases hf : g.links.find? (·.ends == (l.source, l.target)) with
  | none => exact absurd (beq_self_eq_true l.ends) (List.find?_eq_none.1 hf l h)
  | some m =>
    have hends : m.ends = (l.source, l.target) := by simpa using List.find?_some hf
    rw [link_inj (List.mem_of_find?_eq_some hf) h hends, Option.bind_some]

/-- Without an edge there is no condition. -/
theorem edgeCond?_eq_none {g : Cfg} {s t : String} (h : t ∉ g.succ s) :
    g.edgeCond? s t = none := by
  rw [edgeCond?_eq]
  cases hf : g.links.find? (·.ends == (s, t)) with
  | none => rfl
  | some l =>
    have hends : l.ends = (s, t) := by simpa using List.find?_some hf
    obtain ⟨hs, ht⟩ := Prod.mk.inj hends
    exact absurd (mem_succ_iff.2 ⟨l, List.mem_of_find?_eq_some hf, hs, ht⟩) h

/-- Links that agree at one end differ at the other one. -/
theorem nodup_map_filter_links (g : Cfg) {p : Link → Bool} {f : Link → String}
    (h : ∀ l m, p l = true → p m = true → f l = f m → l.ends = m.ends) :
    ((g.links.filter p).map f).Nodup := by
  refine (List.nodup_map_iff_inj_on ((List.Nodup.of_map _ g.nodup_ends).filter _)).2 ?_
  intro l hl m hm hf
  have hl' := List.mem_filter.1 hl
  have hm' := List.mem_filter.1 hm
  exact link_inj hl'.1 hm'.1 (h l m hl'.2 hm'.2 hf)

/-- No successor is listed twice, since no ends occur twice. -/
theorem nodup_succ (g : Cfg) (s : String) : (g.succ s).Nodup := by
  rw [succ_eq]
  refine g.nodup_map_filter_links fun l m hl hm ht => ?_
  exact Prod.ext ((eq_of_beq hl).trans (eq_of_beq hm).symm) ht

/-- No predecessor is listed twice. -/
theorem nodup_pred (g : Cfg) (t : String) : (g.pred t).Nodup := by
  rw [pred_eq]
  refine g.nodup_map_filter_links fun l m hl hm hs => ?_
  exact Prod.ext hs ((eq_of_beq hl).trans (eq_of_beq hm).symm)

/-- Both ends of an edge are listed among the addresses. -/
theorem mem_sortedAddrs_of_succ {g : Cfg} {s t : String} (h : t ∈ g.succ s) :
    s ∈ g.sortedAddrs ∧ t ∈ g.sortedAddrs := by
  obtain ⟨l, hl, rfl, rfl⟩ := mem_succ_iff.1 h
  exact ⟨mem_sortedAddrs.2 (mem_links hl).1, mem_sortedAddrs.2 (mem_links hl).2⟩

/-- Where edges lead is known if it is known at the addresses. -/
theorem succ_congr {g h : Cfg} (ha : h.sortedAddrs = g.sortedAddrs)
    (hs : ∀ a ∈ g.sortedAddrs, h.succ a = g.succ a) (a : String) : h.succ a = g.succ a := by
  by_cases hmem : a ∈ g.sortedAddrs
  · exact hs a hmem
  · have hnil : ∀ k : Cfg, a ∉ k.sortedAddrs → k.succ a = [] := fun k hk =>
      List.eq_nil_iff_forall_not_mem.2 fun b hb => hk (mem_sortedAddrs_of_succ hb).1
    rw [hnil h (ha ▸ hmem), hnil g hmem]

/-! ### Operations -/

/-- Links stay as they are when nodes are added behind the others or change what they hold. -/
theorem links_congr {g h : Cfg} (he : h.graph.edges = g.graph.edges)
    (hp : g.nodes.map Node.addr <+: h.nodes.map Node.addr) : h.links = g.links := by
  have haddr : ∀ v : NodeId, v.index < g.graph.nodes.size → h.addrAt v = g.addrAt v := by
    intro v hv
    have hlt : v.index < (g.nodes.map Node.addr).length := by
      rw [List.length_map]
      exact hv
    have hget := List.prefix_iff_getElem?.1 hp v.index hlt
    rw [addrAt, addrAt, nodeAt?_eq, nodeAt?_eq, ← List.getElem?_map, ← List.getElem?_map, hget,
      List.getElem?_eq_getElem hlt]
  rw [links, links, he]
  refine List.map_congr_left fun e hm => ?_
  rw [linkOf, linkOf, haddr _ (g.graph.source_lt e (Array.mem_def.2 hm)),
    haddr _ (g.graph.target_lt e (Array.mem_def.2 hm))]

/-- Nodes and links do not depend on the chosen entry. -/
theorem nodes_links_of_graph {g h : Cfg} (he : h.graph = g.graph) :
    h.nodes = g.nodes ∧ h.links = g.links := by
  have hn : h.nodes = g.nodes := congrArg (·.nodes.toList) he
  exact ⟨hn, links_congr (congrArg Digraph.edges he) (hn ▸ List.prefix_refl _)⟩

/-- **Mention, the nodes.** A bare node is added for an address that has none. -/
theorem nodes_ensureNode (g : Cfg) (addr : String) :
    (g.ensureNode addr).2.nodes = touch g.nodes addr := by
  rw [ensureNode]
  split
  · next v h =>
    obtain ⟨n, hn, rfl⟩ := nodeId?_eq_some_iff.1 h
    have hany : g.nodes.any (·.addr == n.addr) = true :=
      List.any_eq_true.2 ⟨n, List.mem_of_getElem? hn, by simp⟩
    rw [touch, if_pos hany]
  · next h =>
    have hany : ¬ g.nodes.any (·.addr == addr) = true := by
      rw [List.any_eq_true]
      rintro ⟨n, hn, he⟩
      exact nodeId?_eq_none_iff.1 h (List.mem_map.2 ⟨n, hn, by simpa using he⟩)
    rw [touch, if_neg hany, nodes, nodes]
    simp [Digraph.addNode]

/-- Addresses that were there keep their places when one is mentioned. -/
theorem addrs_touch (nodes : List Node) (addr : String) :
    nodes.map Node.addr <+: (touch nodes addr).map Node.addr := by
  rw [touch]
  split
  · exact List.prefix_refl _
  · rw [List.map_append]
    exact List.prefix_append _ _

/-- **Mention, the links.** They stay. -/
theorem links_ensureNode (g : Cfg) (addr : String) : (g.ensureNode addr).2.links = g.links := by
  refine links_congr ?_ (nodes_ensureNode g addr ▸ addrs_touch g.nodes addr)
  rw [ensureNode]
  split <;> rfl

/-- **Mention, the entry.** It stays. -/
theorem chosen_ensureNode (g : Cfg) (addr : String) :
    (g.ensureNode addr).2.chosen = g.chosen := by
  rw [ensureNode]
  split <;> rfl

/-- The identifier that a mention gives is the one that the address has from then on. -/
theorem nodeId?_ensureNode (g : Cfg) (addr : String) :
    (g.ensureNode addr).2.nodeId? addr = some (g.ensureNode addr).1 := by
  rw [ensureNode]
  split
  · next h => exact h
  · refine nodeId?_eq_some_iff.2 ⟨{ addr }, ?_, rfl⟩
    simp [nodes, Digraph.addNode]

/-- A node keeps its identifier when others are added. -/
theorem nodeId?_of_prefix {g h : Cfg} (hp : g.nodes.map Node.addr <+: h.nodes.map Node.addr)
    {addr : String} {v : NodeId} (hv : g.nodeId? addr = some v) : h.nodeId? addr = some v := by
  obtain ⟨n, hn, rfl⟩ := nodeId?_eq_some_iff.1 hv
  have hget : (g.nodes.map Node.addr)[v.index]? = some n.addr := by
    rw [List.getElem?_map, hn, Option.map_some]
  obtain ⟨hlt, he⟩ := List.getElem?_eq_some_iff.1 hget
  have hget' := List.prefix_iff_getElem?.1 hp v.index hlt
  rw [he, List.getElem?_map] at hget'
  obtain ⟨m, hm, hma⟩ := Option.map_eq_some_iff.1 hget'
  exact nodeId?_eq_some_iff.2 ⟨m, hm, hma⟩

/-- **Change of a node, by its place.** What it holds is changed, but for its address. -/
theorem nodes_modifyNode_eq_modify (g : Cfg) (v : NodeId) (f : Node → Node) :
    (g.modifyNode v f).nodes = g.nodes.modify v.index fun n => { f n with addr := n.addr } := by
  simp [nodes, modifyNode, Digraph.modifyNode]

/-- **Change of a node, by its address.** All other addresses hold what they held. -/
theorem nodes_modifyNode {g : Cfg} {addr : String} {v : NodeId} (h : g.nodeId? addr = some v)
    (f : Node → Node) :
    (g.modifyNode v f).nodes =
      g.nodes.map fun n => if n.addr = addr then { f n with addr := n.addr } else n := by
  obtain ⟨m, hm, rfl⟩ := nodeId?_eq_some_iff.1 h
  rw [nodes_modifyNode_eq_modify]
  refine List.ext_getElem? fun i => ?_
  rw [List.getElem?_modify, List.getElem?_map]
  cases hi : g.nodes[i]? with
  | none => rfl
  | some n =>
    by_cases he : v.index = i
    · subst he
      rw [hm] at hi
      cases hi
      simp
    · have hne : n.addr ≠ m.addr := fun ha => he (index_inj hm hi ha.symm)
      simp [he, hne]

/-- A change of a node leaves all addresses where they are. -/
theorem addrs_modifyNode (g : Cfg) (v : NodeId) (f : Node → Node) :
    (g.modifyNode v f).nodes.map Node.addr = g.nodes.map Node.addr := by
  rw [nodes_modifyNode_eq_modify]
  refine List.ext_getElem? fun i => ?_
  rw [List.getElem?_map, List.getElem?_map, List.getElem?_modify]
  cases g.nodes[i]? with
  | none => rfl
  | some n => by_cases he : v.index = i <;> simp [he]

/-- A change of a node leaves the links. -/
theorem links_modifyNode (g : Cfg) (v : NodeId) (f : Node → Node) :
    (g.modifyNode v f).links = g.links :=
  links_congr rfl (addrs_modifyNode g v f ▸ List.prefix_refl _)

/-! ### Adding an edge -/

/-- **Edge, the nodes.** Both ends are mentioned, the source first. -/
theorem nodes_addEdge (g : Cfg) (s t : String) (cond : Option Cond) :
    (g.addEdge s t cond).2.nodes = touch (touch g.nodes s) t := by
  rw [← nodes_ensureNode, ← nodes_ensureNode]
  rw [addEdge]
  dsimp only
  split <;> rfl

/-- **Edge, the entry.** It stays. -/
theorem chosen_addEdge (g : Cfg) (s t : String) (cond : Option Cond) :
    (g.addEdge s t cond).2.chosen = g.chosen := by
  rw [← chosen_ensureNode g s, ← chosen_ensureNode (g.ensureNode s).2 t]
  rw [addEdge]
  dsimp only
  split <;> rfl

/-- Two nodes have no edge between them if no link has their addresses for its ends. -/
theorem findEdge?_eq_none_iff {g : Cfg} {s t : String} {v w : NodeId} (hs : g.nodeId? s = some v)
    (ht : g.nodeId? t = some w) :
    g.graph.findEdge? v w = none ↔ (s, t) ∉ g.links.map Link.ends := by
  rw [Digraph.findEdge?, Option.map_eq_none_iff, Array.findIdx?_eq_none_iff]
  constructor
  · intro h hm
    obtain ⟨l, hl, he⟩ := List.mem_map.1 hm
    obtain ⟨e, hmem, rfl⟩ := List.mem_map.1 hl
    have := h e (Array.mem_def.2 hmem)
    rw [ends_linkOf hs ht hmem, he] at this
    simp at this
  · intro h e hmem
    rw [ends_linkOf hs ht (Array.mem_def.1 hmem), ← Bool.not_eq_true]
    intro he
    refine h (List.mem_map.2 ⟨g.linkOf e, ?_, by simpa using he⟩)
    exact List.mem_map.2 ⟨e, Array.mem_def.1 hmem, rfl⟩

/-- The edge that is found is a link at its place. -/
theorem exists_link_of_findEdge? {g : Cfg} {s t : String} {v w : NodeId} {e : EdgeId}
    (hs : g.nodeId? s = some v) (ht : g.nodeId? t = some w)
    (h : g.graph.findEdge? v w = some e) : ∃ l, g.links[e.index]? = some l ∧ l.ends = (s, t) := by
  obtain ⟨i, hi, rfl⟩ := Option.map_eq_some_iff.1 h
  obtain ⟨hlt, hp, -⟩ := Array.findIdx?_eq_some_iff_getElem.1 hi
  have hmem : g.graph.edges[i] ∈ g.graph.edges.toList :=
    Array.mem_def.1 (Array.getElem_mem hlt)
  rw [ends_linkOf hs ht hmem] at hp
  refine ⟨g.linkOf g.graph.edges[i], ?_, by simpa using hp⟩
  rw [links, List.getElem?_map, Array.getElem?_toList, Array.getElem?_eq_getElem hlt]
  rfl

/-- **Condition, by the place of the edge.** The link at this place gets it. -/
theorem links_setCondAt_eq_modify (g : Cfg) (e : EdgeId) (cond : Option Cond) :
    (g.setCondAt e cond).links = g.links.modify e.index fun l => { l with cond } := by
  have hedges : (g.setCondAt e cond).graph.edges.toList =
      g.graph.edges.toList.modify e.index fun d => { d with data := cond } := by
    simp [setCondAt, Digraph.modifyEdge]
  refine List.ext_getElem? fun j => ?_
  change ((g.setCondAt e cond).graph.edges.toList.map g.linkOf)[j]? = _
  rw [hedges, links, List.getElem?_modify, List.getElem?_map, List.getElem?_map,
    List.getElem?_modify]
  cases g.graph.edges.toList[j]? with
  | none => rfl
  | some d => by_cases hj : e.index = j <;> simp [hj, linkOf]

/-- **Condition, by the ends of the edge.** To set it is to put a link that is there again. -/
theorem links_setCondAt {g : Cfg} {s t : String} {v w : NodeId} {e : EdgeId}
    (hs : g.nodeId? s = some v) (ht : g.nodeId? t = some w)
    (h : g.graph.findEdge? v w = some e) (cond : Option Cond) :
    (g.setCondAt e cond).links = putLink g.links ⟨s, t, cond⟩ := by
  obtain ⟨l, hl, hends⟩ := exists_link_of_findEdge? hs ht h
  obtain ⟨rfl, rfl⟩ := Prod.mk.inj hends
  rw [links_setCondAt_eq_modify, modify_eq_putLink g.nodup_ends hl]

/-- A new edge is a link that is put last. -/
theorem links_connect {g h : Cfg} {s t : String} {v w : NodeId} {cond : Option Cond}
    (hs : g.nodeId? s = some v) (ht : g.nodeId? t = some w)
    (hf : g.graph.findEdge? v w = none) (hn : h.nodes = g.nodes)
    (he : h.graph.edges = g.graph.edges.push ⟨v, w, cond⟩) :
    h.links = putLink g.links ⟨s, t, cond⟩ := by
  have hmem : Link.ends ⟨s, t, cond⟩ ∉ g.links.map Link.ends := (findEdge?_eq_none_iff hs ht).1 hf
  have haddr : h.addrAt = g.addrAt := by
    funext u
    rw [addrAt, addrAt, nodeAt?_eq, nodeAt?_eq, hn]
  have hlink : h.linkOf = g.linkOf := by
    funext e
    rw [linkOf, linkOf, haddr]
  have hlast : g.linkOf ⟨v, w, cond⟩ = ⟨s, t, cond⟩ := by
    rw [linkOf, addrAt_of_nodeId? hs, addrAt_of_nodeId? ht]
  rw [putLink_of_not_mem hmem, links, he, hlink, Array.toList_push, List.map_append,
    List.map_singleton, hlast, links]

/-- **Adding an edge** puts its link. -/
theorem links_addEdge (g : Cfg) (s t : String) (cond : Option Cond) :
    (g.addEdge s t cond).2.links = putLink g.links ⟨s, t, cond⟩ := by
  have hlinks : ((g.ensureNode s).2.ensureNode t).2.links = g.links := by
    rw [links_ensureNode, links_ensureNode]
  have ht := nodeId?_ensureNode (g.ensureNode s).2 t
  have hs := nodeId?_of_prefix
    (nodes_ensureNode (g.ensureNode s).2 t ▸ addrs_touch (g.ensureNode s).2.nodes t)
    (nodeId?_ensureNode g s)
  rw [← hlinks]
  rw [addEdge]
  dsimp only
  split
  · next h => exact links_setCondAt hs ht h cond
  · next h => exact links_connect hs ht h rfl rfl

/-! ### The entry -/

/-- A graph is empty if it has no nodes. -/
theorem isEmpty_iff {g : Cfg} : g.isEmpty = true ↔ g.nodes = [] := by
  rw [isEmpty, Digraph.isEmpty, Array.isEmpty_iff, nodes, Array.toList_eq_nil_iff]

/-- Without a chosen entry the first node is the entry. -/
theorem entry_of_chosen_eq_none {g : Cfg} (h : g.chosen = none) :
    g.entry? = (g.nodes.map Node.addr).head? := by
  rw [Cfg.entry?, entryId?, h, Option.none_or]
  cases hn : g.nodes with
  | nil =>
    rw [if_pos (isEmpty_iff.2 hn)]
    rfl
  | cons n ns =>
    have hne : ¬ g.isEmpty = true := by
      rw [isEmpty_iff, hn]
      exact List.cons_ne_nil n ns
    rw [if_neg hne]
    exact congrArg some (addrAt_of_getElem? (v := ⟨0⟩) (by rw [hn]; rfl))

/-- Any address of the graph can be made the entry, and nothing else changes. -/
theorem exists_setEntry {g : Cfg} {addr : String} (h : addr ∈ g.nodes.map Node.addr) :
    ∃ g', g.setEntry addr = .ok g' ∧ g'.graph = g.graph ∧ g'.entry? = some addr := by
  rw [setEntry]
  split
  · next v hv =>
    refine ⟨_, rfl, rfl, ?_⟩
    exact congrArg some (addrAt_of_nodeId? hv)
  · next hv => exact absurd h (nodeId?_eq_none_iff.1 hv)

end Cfg

end FlowText
