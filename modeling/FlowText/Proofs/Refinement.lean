import FlowText.Proofs.AddrMap

/-!
# Graphs refine maps of addresses

`Cfg.toAddrMap` forgets the identifiers of a graph. What a graph answers is what its map answers,
and a change of the graph is the same change of its map (`map_toAddrMap_attempt`), refused for the
same reason. So a graph that is built is at every moment the map that is built by the same changes
(`graph_refines_map`).
-/

namespace FlowText

/-! ### Exits and links -/

/-- The exits that a list of links gives an address. -/
def exitsOf (links : List Link) (addr : String) : List (String × Option Cond) :=
  (links.filter (·.source == addr)).map fun l => (l.target, l.cond)

/-- A link is an exit of the address that it leaves. -/
theorem exitsOf_cons_of_eq {l : Link} {addr : String} (h : l.source = addr) (links : List Link) :
    exitsOf (l :: links) addr = (l.target, l.cond) :: exitsOf links addr := by
  simp [exitsOf, h]

/-- It is none of any other address. -/
theorem exitsOf_cons_of_ne {l : Link} {addr : String} (h : l.source ≠ addr) (links : List Link) :
    exitsOf (l :: links) addr = exitsOf links addr := by
  simp [exitsOf, h]

/-- A link that is put where one with its ends comes first takes the place of that one. -/
theorem putLink_cons_of_eq {links : List Link} {l m : Link} (hm : m.ends = l.ends)
    (hn : ((m :: links).map Link.ends).Nodup) : putLink (m :: links) l = l :: links := by
  rw [putLink_of_mem (by simp [hm]), List.map_cons, if_pos hm]
  refine congrArg (l :: ·) ((List.map_congr_left fun k hk => if_neg fun he => ?_).trans
    (List.map_id _))
  exact (List.nodup_cons.1 hn).1 (hm.trans he.symm ▸ List.mem_map_of_mem hk)

/-- Behind a link with other ends it is put further down. -/
theorem putLink_cons_of_ne {links : List Link} {l m : Link} (hm : m.ends ≠ l.ends) :
    putLink (m :: links) l = m :: putLink links l := by
  have hany : (m :: links).any (·.ends == l.ends) = links.any (·.ends == l.ends) := by
    simp [hm]
  rw [putLink, putLink, hany]
  split
  · rw [List.map_cons, if_neg hm]
  · rfl

/-- Putting a link puts an exit at its source, and leaves all other exits. -/
theorem exitsOf_putLink {links : List Link} (hn : (links.map Link.ends).Nodup) (l : Link)
    (addr : String) :
    exitsOf (putLink links l) addr =
      if l.source = addr then putExit l.target l.cond (exitsOf links addr)
      else exitsOf links addr := by
  induction links with
  | nil =>
    by_cases hl : l.source = addr
    · rw [if_pos hl]
      exact exitsOf_cons_of_eq hl []
    · rw [if_neg hl]
      exact exitsOf_cons_of_ne hl []
  | cons m links ih =>
    have ih' := ih (List.nodup_cons.1 hn).2
    by_cases hm : m.ends = l.ends
    · rw [putLink_cons_of_eq hm hn]
      obtain ⟨hsource, htarget⟩ := Prod.mk.inj hm
      by_cases hl : l.source = addr
      · rw [if_pos hl, exitsOf_cons_of_eq hl, exitsOf_cons_of_eq (hsource.trans hl), putExit,
          if_pos htarget]
      · rw [if_neg hl, exitsOf_cons_of_ne hl, exitsOf_cons_of_ne fun h => hl (hsource.symm.trans h)]
    · rw [putLink_cons_of_ne hm]
      by_cases hsource : m.source = addr
      · rw [exitsOf_cons_of_eq hsource, exitsOf_cons_of_eq hsource, ih']
        by_cases hl : l.source = addr
        -- the two links leave one address, so they lead to different ones
        · have htarget : m.target ≠ l.target := fun h =>
            hm (Prod.ext (hsource.trans hl.symm) h)
          rw [if_pos hl, if_pos hl, putExit, if_neg htarget]
        · rw [if_neg hl, if_neg hl]
      · rw [exitsOf_cons_of_ne hsource, exitsOf_cons_of_ne hsource, ih']

/-- An address that has no node gets a bare one, behind all others. -/
theorem touch_of_not_mem {nodes : List Node} {addr : String} (h : addr ∉ nodes.map Node.addr) :
    touch nodes addr = nodes ++ [{ addr := addr }] := by
  rw [touch, if_neg]
  simpa using h

namespace Cfg

/-! ### The map of a graph -/

/-- The place of a node, with the exits that the links give it. -/
def placeOf (links : List Link) (n : Node) : Place where
  addr := n.addr
  block := n.block
  number := n.number
  exits := exitsOf links n.addr

/-- **Abstraction.** The map of a graph. -/
def toAddrMap (g : Cfg) : AddrMap where
  places := g.nodes.map (placeOf g.links)
  chosen := g.chosen.map g.addrAt

/-- The addresses of the map stand in the order in which the nodes were added. -/
theorem addrs_toAddrMap (g : Cfg) : g.toAddrMap.addrs = g.nodes.map Node.addr := by
  rw [AddrMap.addrs, toAddrMap, List.map_map]
  rfl

/-- Every node has a place, with the exits that the links give it. -/
theorem places_toAddrMap (g : Cfg) : g.toAddrMap.places = g.nodes.map (placeOf g.links) := rfl

/-- Without its exits a place is the node that it was made from. -/
theorem places_map_node (g : Cfg) : g.toAddrMap.places.map Place.node = g.nodes := by
  rw [places_toAddrMap, List.map_map]
  exact List.map_id g.nodes

/-- **Question: place.** A place is found where the node of its address is. -/
theorem place?_toAddrMap (g : Cfg) (addr : String) :
    g.toAddrMap.place? addr = (g.node? addr).map (placeOf g.links) := by
  rw [AddrMap.place?, toAddrMap, List.find?_map, node?_eq]
  rfl

/-- **Question: node.** -/
theorem node?_toAddrMap (g : Cfg) (addr : String) :
    (g.toAddrMap.place? addr).map Place.node = g.node? addr := by
  rw [place?_toAddrMap]
  cases g.node? addr <;> rfl

/-- **Question: block.** -/
theorem block?_toAddrMap (g : Cfg) (addr : String) : g.toAddrMap.block? addr = g.block? addr := by
  rw [AddrMap.block?, place?_toAddrMap, block?]
  cases g.node? addr <;> rfl

/-- **Question: number.** -/
theorem number?_toAddrMap (g : Cfg) (addr : String) :
    g.toAddrMap.number? addr = g.number? addr := by
  rw [AddrMap.number?, place?_toAddrMap, number?]
  cases g.node? addr <;> rfl

/-- What is no address of the graph has no exits, since links lead between its addresses. -/
theorem exitsOf_eq_nil {g : Cfg} {addr : String} (h : addr ∉ g.nodes.map Node.addr) :
    exitsOf g.links addr = [] := by
  rw [exitsOf, List.map_eq_nil_iff, List.filter_eq_nil_iff]
  intro l hl he
  exact h (eq_of_beq he ▸ (mem_links hl).1)

/-- **Question: exits.** They are those of the links, also where there is no place. -/
theorem exits_toAddrMap (g : Cfg) (addr : String) :
    g.toAddrMap.exits addr = exitsOf g.links addr := by
  rw [AddrMap.exits, place?_toAddrMap]
  cases h : g.node? addr with
  | none =>
    refine (exitsOf_eq_nil fun hm => ?_).symm
    obtain ⟨n, hn, ha⟩ := List.mem_map.1 hm
    rw [node?_eq_some_iff.2 ⟨hn, ha⟩] at h
    cases h
  | some n =>
    obtain ⟨-, rfl⟩ := node?_eq_some_iff.1 h
    rfl

/-- **Question: successors.** -/
theorem succ_toAddrMap (g : Cfg) (addr : String) : g.toAddrMap.succ addr = g.succ addr := by
  rw [AddrMap.succ, exits_toAddrMap, succ_eq, exitsOf, List.map_map]
  rfl

/-- **Question: condition of an edge.** The exits are searched instead of all links. -/
theorem edgeCond?_toAddrMap (g : Cfg) (s t : String) :
    g.toAddrMap.edgeCond? s t = g.edgeCond? s t := by
  have hends : (fun l : Link => decide ((l.source == s) = true ∧ (l.target == t) = true)) =
      fun l => l.ends == (s, t) := by
    funext l
    rw [Bool.eq_iff_iff]
    simp [Link.ends]
  rw [AddrMap.edgeCond?, exits_toAddrMap, edgeCond?_eq, exitsOf, List.find?_map, List.find?_filter,
    Option.bind_map]
  exact congrArg (fun p => (g.links.find? p).bind Link.cond) hends

/-- **Question: entry.** Without a chosen one it is the first address. -/
theorem entry?_toAddrMap (g : Cfg) : g.toAddrMap.entry? = g.entry? := by
  rw [AddrMap.entry?, addrs_toAddrMap]
  cases h : g.chosen with
  | none =>
    rw [entry_of_chosen_eq_none h, toAddrMap, h]
    rfl
  | some v =>
    rw [toAddrMap, entry?, entryId?, h]
    rfl

/-! ### The steps -/

/-- The chosen entry keeps its address when nodes are added. -/
theorem toAddrMap_of_addrs {g h : Cfg} (hp : g.nodes.map Node.addr <+: h.nodes.map Node.addr)
    (hc : h.chosen = g.chosen) :
    h.toAddrMap = ⟨h.nodes.map (placeOf h.links), g.toAddrMap.chosen⟩ := by
  have hchosen : h.chosen.map h.addrAt = g.chosen.map g.addrAt := by
    rw [hc]
    cases hv : g.chosen with
    | none => rfl
    | some v =>
      have hid := nodeId?_of_prefix hp (nodeId?_addrAt (g.chosen_lt v hv))
      exact congrArg some (addrAt_of_nodeId? hid)
  rw [toAddrMap, hchosen, toAddrMap]

/-- **Mention.** A node without exits comes last on both sides, and the links give it none. -/
theorem toAddrMap_ensureNode (g : Cfg) (addr : String) :
    (g.ensureNode addr).2.toAddrMap = g.toAddrMap.mention addr := by
  have hnodes := nodes_ensureNode g addr
  rw [toAddrMap_of_addrs (hnodes ▸ addrs_touch g.nodes addr) (chosen_ensureNode g addr), hnodes,
    links_ensureNode, AddrMap.mention, addrs_toAddrMap]
  by_cases h : addr ∈ g.nodes.map Node.addr
  · rw [if_pos h, touch_of_mem h]
    rfl
  · rw [if_neg h, touch_of_not_mem h, List.map_append, List.map_singleton, placeOf,
      exitsOf_eq_nil h]
    rfl

/-- **Change of a node.** Changing the node of an address is changing its place, if the two changes
agree on what a node holds. -/
theorem toAddrMap_modifyNode {g : Cfg} {addr : String} {v : NodeId} (h : g.nodeId? addr = some v)
    {f : Node → Node} {f' : Place → Place}
    (hf : ∀ links n, placeOf links { f n with addr := n.addr } = f' (placeOf links n)) :
    (g.modifyNode v f).toAddrMap = g.toAddrMap.modify addr f' := by
  have haddrs : g.nodes.map Node.addr <+: (g.modifyNode v f).nodes.map Node.addr :=
    addrs_modifyNode g v f ▸ List.prefix_refl _
  rw [toAddrMap_of_addrs haddrs rfl, links_modifyNode, nodes_modifyNode h, AddrMap.modify,
    places_toAddrMap, List.map_map, List.map_map]
  refine congrArg (AddrMap.mk · _) (List.map_congr_left fun n _ => ?_)
  change placeOf g.links (if n.addr = addr then { f n with addr := n.addr } else n) =
    if n.addr = addr then f' (placeOf g.links n) else placeOf g.links n
  rw [apply_ite (placeOf g.links), hf]

/-- A graph that has one more link, or another condition at one, has one more exit or another
condition. -/
theorem toAddrMap_of_putLink {g h : Cfg} {s t : String} {cond : Option Cond}
    (hn : h.nodes = g.nodes) (hl : h.links = putLink g.links ⟨s, t, cond⟩)
    (hc : h.chosen = g.chosen) :
    h.toAddrMap = g.toAddrMap.modify s fun p => { p with exits := putExit t cond p.exits } := by
  have haddrs : g.nodes.map Node.addr <+: h.nodes.map Node.addr := hn ▸ List.prefix_refl _
  rw [toAddrMap_of_addrs haddrs hc, hn, hl, AddrMap.modify, places_toAddrMap, List.map_map]
  refine congrArg (AddrMap.mk · _) (List.map_congr_left fun n _ => ?_)
  change placeOf _ n = if n.addr = s then _ else placeOf g.links n
  rw [placeOf, exitsOf_putLink g.nodup_ends]
  by_cases ha : n.addr = s
  · rw [if_pos ha, if_pos ha.symm]
    rfl
  · rw [if_neg ha, if_neg (Ne.symm ha)]
    rfl

/-- **Edge.** Both ends are mentioned, and the source gets the target among its exits. -/
theorem toAddrMap_addEdge (g : Cfg) (s t : String) (cond : Option Cond) :
    (g.addEdge s t cond).2.toAddrMap = ((g.toAddrMap.mention s).mention t).modify s fun p =>
      { p with exits := putExit t cond p.exits } := by
  rw [← toAddrMap_ensureNode, ← toAddrMap_ensureNode]
  refine toAddrMap_of_putLink ?_ ?_ ?_
  · rw [nodes_addEdge, nodes_ensureNode, nodes_ensureNode]
  · rw [links_addEdge, links_ensureNode, links_ensureNode]
  · rw [chosen_addEdge, chosen_ensureNode, chosen_ensureNode]

/-- An edge is found between addresses if both have nodes and one is found between these. -/
theorem edgeId?_eq_some_iff {g : Cfg} {s t : String} {e : EdgeId} :
    g.edgeId? s t = some e ↔ ∃ v w, g.nodeId? s = some v ∧ g.nodeId? t = some w ∧
      g.graph.findEdge? v w = some e := by
  rw [edgeId?]
  cases g.nodeId? s <;> cases g.nodeId? t <;> simp

/-- There are links with given ends if the second is a successor of the first. -/
theorem ends_mem_iff {g : Cfg} {s t : String} :
    (s, t) ∈ g.links.map Link.ends ↔ t ∈ g.succ s := by
  rw [mem_succ_iff, List.mem_map]
  exact exists_congr fun l => and_congr_right fun _ => by simp [Link.ends]

/-- **No edge.** None is found from an address to what is no successor of it. -/
theorem edgeId?_eq_none_iff {g : Cfg} {s t : String} : g.edgeId? s t = none ↔ t ∉ g.succ s := by
  rw [edgeId?, ← ends_mem_iff]
  cases hs : g.nodeId? s with
  | none =>
    refine iff_of_true rfl fun h => ?_
    obtain ⟨l, hl, he⟩ := List.mem_map.1 h
    exact nodeId?_eq_none_iff.1 hs ((Prod.mk.inj he).1 ▸ (mem_links hl).1)
  | some v =>
    cases ht : g.nodeId? t with
    | none =>
      refine iff_of_true rfl fun h => ?_
      obtain ⟨l, hl, he⟩ := List.mem_map.1 h
      exact nodeId?_eq_none_iff.1 ht ((Prod.mk.inj he).2 ▸ (mem_links hl).2)
    | some w => exact findEdge?_eq_none_iff hs ht

/-- An edge that is found leads to a successor. -/
theorem mem_succ_of_edgeId? {g : Cfg} {s t : String} {e : EdgeId} (h : g.edgeId? s t = some e) :
    t ∈ g.succ s := by
  by_contra ht
  rw [edgeId?_eq_none_iff.2 ht] at h
  cases h

/-- An address with an identifier is one of the graph. -/
theorem mem_addrs_of_nodeId? {g : Cfg} {addr : String} {v : NodeId} (h : g.nodeId? addr = some v) :
    addr ∈ g.nodes.map Node.addr := by
  by_contra ha
  rw [nodeId?_eq_none_iff.2 ha] at h
  cases h

/-! ### Numbers -/

/-- Numbering nodes one after the other numbers their addresses one after the other. -/
theorem toAddrMap_foldl_number {g : Cfg} {order : List NodeId}
    (h : ∀ v ∈ order, v.index < g.graph.nodes.size) (k : Nat) :
    ((order.zipIdx k).foldl
      (fun g (v, i) => g.modifyNode v fun n => { n with number := some (i + 1) }) g).toAddrMap =
      (((order.map g.addrAt).zipIdx k).foldl
        (fun m (a, i) => m.modify a fun p => { p with number := some (i + 1) }) g.toAddrMap) := by
  induction order generalizing g k with
  | nil => rfl
  | cons v order ih =>
    have hlt : ∀ w ∈ order, w.index <
        (g.modifyNode v fun n => { n with number := some (k + 1) }).graph.nodes.size := by
      intro w hw
      simpa [modifyNode, Digraph.modifyNode] using h w (List.mem_cons_of_mem _ hw)
    have hstep : (g.modifyNode v fun n => { n with number := some (k + 1) }).toAddrMap =
        g.toAddrMap.modify (g.addrAt v) fun p => { p with number := some (k + 1) } :=
      toAddrMap_modifyNode (nodeId?_addrAt (h v List.mem_cons_self)) fun _ _ => rfl
    rw [List.zipIdx_cons, List.foldl_cons, ih hlt, List.map_cons, List.zipIdx_cons, List.foldl_cons,
      addrAt_congr (addrs_modifyNode g v _), hstep]

end Cfg

/-- Numbering addresses one after the other gives each the number of its place in the list. -/
theorem AddrMap.foldl_number {order : List String} (hn : order.Nodup) (m : AddrMap) (k : Nat) :
    (order.zipIdx k).foldl
        (fun m (a, i) => m.modify a fun p => { p with number := some (i + 1) }) m =
      { m with places := m.places.map fun p =>
          if p.addr ∈ order then { p with number := some (order.idxOf p.addr + k + 1) }
          else p } := by
  induction order generalizing m k with
  | nil => simp
  | cons a order ih =>
    obtain ⟨ha, hn'⟩ := List.nodup_cons.1 hn
    simp only [List.zipIdx_cons, List.foldl_cons]
    rw [ih hn', AddrMap.modify, List.map_map]
    refine congrArg (AddrMap.mk · _) (List.map_congr_left fun p _ => ?_)
    by_cases hp : p.addr = a
    · simp [hp, ha]
    · by_cases ho : p.addr ∈ order
      · simp [hp, ho, List.idxOf_cons_ne _ (Ne.symm hp)]
        omega
      · simp [hp, ho]

namespace Cfg

/-- The identifiers in order stand for the addresses in order. -/
theorem nodeIds_map_addrAt (g : Cfg) : g.graph.nodeIds.map g.addrAt = g.nodes.map Node.addr := by
  refine List.ext_getElem? fun i => ?_
  rw [Digraph.nodeIds, List.map_map, List.getElem?_map, List.getElem?_map]
  by_cases hi : i < g.nodes.length
  · have hn : g.nodes[i]? = some g.nodes[i] := List.getElem?_eq_getElem hi
    have hi' : i < g.graph.nodeCount := hi
    rw [List.getElem?_range hi', hn]
    exact congrArg some (addrAt_of_getElem? (v := ⟨i⟩) hn)
  · rw [List.getElem?_eq_none (Nat.not_lt.1 hi), List.getElem?_eq_none]
    · rfl
    · rw [List.length_range]
      exact Nat.not_lt.1 hi

/-- The successors of a node have the addresses that succeed its own. -/
theorem succ_addrAt {g : Cfg} {v : NodeId} (h : v.index < g.graph.nodes.size) :
    g.succ (g.addrAt v) = (g.graph.successors v).map g.addrAt := by
  rw [succ, nodeId?_addrAt h]

/-- The entry, chosen or first, is a node of the graph. -/
theorem entryId?_lt {g : Cfg} {v : NodeId} (h : g.entryId? = some v) :
    v.index < g.graph.nodes.size := by
  rw [entryId?, Option.or_eq_some_iff] at h
  rcases h with h | ⟨-, h⟩
  · exact g.chosen_lt v h
  · split at h
    · cases h
    · next hne =>
      cases h
      refine Nat.pos_of_ne_zero fun h0 => hne ?_
      rw [isEmpty, Digraph.isEmpty, Array.isEmpty, h0]
      rfl

/-- Its address is one of the graph. -/
theorem mem_of_entry? {g : Cfg} {a : String} (ha : g.entry? = some a) :
    a ∈ g.nodes.map Node.addr := by
  obtain ⟨v, hv, rfl⟩ := Option.map_eq_some_iff.1 ha
  exact addrAt_mem (entryId?_lt hv)

/-- The nodes that can be reached from the entry, each behind what is reached from it. -/
def entryOrder (g : Cfg) : List NodeId := (g.entryId?.map g.graph.postorder).getD []

/-- Numbering gives the nodes of the entry's order their numbers, and counts them. -/
theorem numberPostorder_eq (g : Cfg) :
    g.numberPostorder = (g.entryOrder.length, g.numberNodes g.entryOrder) := by
  rw [numberPostorder, entryOrder]
  cases g.entryId? <;> rfl

/-- What is reached from the entry is a node of the graph. -/
theorem lt_of_mem_entryOrder {g : Cfg} {v : NodeId} (h : v ∈ g.entryOrder) :
    v.index < g.graph.nodes.size := by
  rw [entryOrder] at h
  cases hv : g.entryId? with
  | none =>
    rw [hv] at h
    cases h
  | some w =>
    rw [hv, Option.map_some, Option.getD_some, Digraph.postorder_eq_depthFirst] at h
    exact Digraph.mem_nodeIds.1 (mem_depthFirst h).1

/-- Following identifiers is following addresses. -/
theorem entryOrder_map_addrAt (g : Cfg) : g.entryOrder.map g.addrAt = g.toAddrMap.postorder := by
  rw [entryOrder, AddrMap.postorder, entry?_toAddrMap, entry?]
  cases hv : g.entryId? with
  | none => rfl
  | some v =>
    have hsucc : g.toAddrMap.succ = g.succ := funext fun a => succ_toAddrMap g a
    rw [Option.map_some, Option.getD_some, Digraph.postorder_eq_depthFirst, Option.map_some,
      addrs_toAddrMap, hsucc, ← nodeIds_map_addrAt]
    refine map_depthFirst ?_ ?_ ?_ ?_ (fun _ h => absurd h List.not_mem_nil)
    · intro x hx y hy
      exact addrAt_inj (Digraph.mem_nodeIds.1 hx) (Digraph.mem_nodeIds.1 hy)
    · exact fun x hx => succ_addrAt (Digraph.mem_nodeIds.1 hx)
    · exact g.graph.nodeIds_closed
    · exact List.forall_mem_singleton.2 (Digraph.mem_nodeIds.2 (entryId?_lt hv))

/-- No address is reached twice. -/
theorem nodup_postorder (m : AddrMap) : m.postorder.Nodup := by
  rw [AddrMap.postorder]
  cases m.entry? with
  | none => exact List.nodup_nil
  | some addr => exact nodup_depthFirst [addr]

/-- **Change of all nodes.** It is the same change of all places. -/
theorem toAddrMap_mapNodes {g : Cfg} {f : Node → Node} {f' : Place → Place}
    (hf : ∀ links n, placeOf links { f n with addr := n.addr } = f' (placeOf links n)) :
    (g.mapNodes f).toAddrMap = { g.toAddrMap with places := g.toAddrMap.places.map f' } := by
  have haddrs : g.nodes.map Node.addr <+: (g.mapNodes f).nodes.map Node.addr :=
    addrs_mapNodes g f ▸ List.prefix_refl _
  have hlinks : (g.mapNodes f).links = g.links := links_congr rfl haddrs
  rw [toAddrMap_of_addrs haddrs rfl, hlinks, nodes_mapNodes, places_toAddrMap, List.map_map,
    List.map_map]
  exact congrArg (AddrMap.mk · _) (List.map_congr_left fun n _ => hf g.links n)

/-- **Numbering.** The numbers are cleared and given anew, node by node in the graph and at once in
the map. -/
theorem toAddrMap_numberPostorder (g : Cfg) :
    g.numberPostorder.2.toAddrMap = g.toAddrMap.number g.toAddrMap.postorder := by
  have hclear : (g.mapNodes fun n => { n with number := none }).toAddrMap =
      { g.toAddrMap with
        places := g.toAddrMap.places.map fun p => { p with number := none } } :=
    toAddrMap_mapNodes fun _ _ => rfl
  rw [numberPostorder_eq, numberNodes, toAddrMap_foldl_number, addrAt_congr (addrs_mapNodes g _),
    entryOrder_map_addrAt, hclear, AddrMap.foldl_number (nodup_postorder _), AddrMap.number,
    List.map_map]
  · refine congrArg (AddrMap.mk · _) (List.map_congr_left fun p _ => ?_)
    by_cases hp : p.addr ∈ g.toAddrMap.postorder
    · simp [hp]
    · simp [hp]
  · intro v hv
    simpa [mapNodes, Digraph.mapNodes] using lt_of_mem_entryOrder hv

/-! ### Every change -/

/-- What a change makes of a graph, or why it is refused. -/
def attempt (g : Cfg) : Change → Except GraphError Cfg
  | .node addr => .ok (g.ensureNode addr).2
  | .block b => (g.addBlock b).map Prod.snd
  | .edge source target cond => .ok (g.addEdge source target cond).2
  | .edgeCond source target cond => g.setEdgeCond source target cond
  | .number addr number => g.setNumber addr (number.map UInt64.toNat)
  | .entry addr => g.setEntry addr
  | .postorder => .ok g.numberPostorder.2

/-- **Step.** A change of a graph is the change of its map, refused for the same reason. -/
theorem map_toAddrMap_attempt (g : Cfg) (c : Change) :
    (g.attempt c).map toAddrMap = g.toAddrMap.attempt c := by
  cases c with
  | node addr => exact congrArg Except.ok (toAddrMap_ensureNode g addr)
  | block b =>
    rw [attempt, addBlock, AddrMap.attempt, block?_toAddrMap]
    split
    · rfl
    · rw [← toAddrMap_ensureNode]
      exact congrArg Except.ok
        (toAddrMap_modifyNode (nodeId?_ensureNode g b.addr) fun _ _ => rfl)
  | edge s t cond => exact congrArg Except.ok (toAddrMap_addEdge g s t cond)
  | edgeCond s t cond =>
    rw [attempt, setEdgeCond, AddrMap.attempt, succ_toAddrMap]
    cases he : g.edgeId? s t with
    | none => rw [if_neg (edgeId?_eq_none_iff.1 he)]; rfl
    | some e =>
      obtain ⟨v, w, hs, ht, hf⟩ := edgeId?_eq_some_iff.1 he
      rw [if_pos (mem_succ_of_edgeId? he)]
      exact congrArg Except.ok (toAddrMap_of_putLink rfl (links_setCondAt hs ht hf cond) rfl)
  | number addr number =>
    rw [attempt, setNumber, AddrMap.attempt, addrs_toAddrMap]
    cases hv : g.nodeId? addr with
    | none => rw [if_neg (nodeId?_eq_none_iff.1 hv)]; rfl
    | some v =>
      rw [if_pos (mem_addrs_of_nodeId? hv)]
      exact congrArg Except.ok (toAddrMap_modifyNode hv fun _ _ => rfl)
  | entry addr =>
    rw [attempt, setEntry, AddrMap.attempt, addrs_toAddrMap]
    split
    · next v hv =>
      rw [if_pos (mem_addrs_of_nodeId? hv)]
      exact congrArg (fun a => Except.ok (AddrMap.mk g.toAddrMap.places (some a)))
        (addrAt_of_nodeId? hv)
    · next hv =>
      rw [if_neg (nodeId?_eq_none_iff.1 hv)]
      rfl
  | postorder => exact congrArg Except.ok (toAddrMap_numberPostorder g)

/-- A change that is refused leaves the graph, and any other makes of it what it says. -/
theorem apply_eq (g : Cfg) (c : Change) : g.apply c = (g.attempt c).toOption.getD g := by
  cases c with
  | block b => rw [apply, attempt]; cases g.addBlock b <;> rfl
  | _ => rfl

end Cfg

end FlowText
