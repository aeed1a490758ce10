import FlowText.Proofs.Refinement
import Mathlib.Algebra.BigOperators.Group.List.Basic

/-!
# Edges by position

The identifier of an edge is the place of its ends among the ends of the links (`edgeId?_eq`).
Adding an edge leaves every edge where it is (`edgeId?_addEdge_of_eq_some`), and only a new one
changes the neighbours (`succ_addEdge_of_edgeId?`). Adding an edge and storing a block are also said
as operations that may fail midway: the first never does (`tryEdge_eq`), the second leaves the graph
as it was when it does (`storeBlock_eq`).
-/

namespace FlowText

theorem ends_putLink_of_mem {links : List Link} {l : Link} (h : l.ends ∈ links.map Link.ends) :
    (putLink links l).map Link.ends = links.map Link.ends := by
  rw [putLink_of_mem h, List.map_map]
  refine List.map_congr_left fun m _ => ?_
  rw [Function.comp_apply]
  split
  · next he => exact he.symm
  · rfl

theorem ends_putLink_of_not_mem {links : List Link} {l : Link} (h : l.ends ∉ links.map Link.ends) :
    (putLink links l).map Link.ends = links.map Link.ends ++ [l.ends] := by
  rw [putLink_of_not_mem h, List.map_append, List.map_singleton]

theorem ends_prefix_putLink (links : List Link) (l : Link) :
    links.map Link.ends <+: (putLink links l).map Link.ends := by
  by_cases h : l.ends ∈ links.map Link.ends
  · rw [ends_putLink_of_mem h]
  · rw [ends_putLink_of_not_mem h]
    exact List.prefix_append _ _

/-- Items are found again by their keys, each one once. The induction is on the keys. -/
theorem perm_flatMap_filter {α κ : Type} [DecidableEq κ] {key : α → κ} {keys : List κ}
    (hn : keys.Nodup) {items : List α} (h : ∀ a ∈ items, key a ∈ keys) :
    (keys.flatMap fun k => items.filter (key · == k)).Perm items := by
  induction keys generalizing items with
  | nil =>
    cases items with
    | nil => exact .refl _
    | cons a items => exact absurd (h a List.mem_cons_self) List.not_mem_nil
  | cons k keys ih =>
    obtain ⟨hk, hn⟩ := List.nodup_cons.1 hn
    -- the items of the other keys are those that are left when the items of this key are taken out
    have hothers : (keys.flatMap fun j => items.filter (key · == j)) =
        keys.flatMap fun j => (items.filter (!key · == k)).filter (key · == j) := by
      refine List.flatMap_congr fun j hj => ?_
      rw [List.filter_filter]
      refine List.filter_congr fun a _ => ?_
      by_cases ha : key a = j
      · have hne : key a ≠ k := fun he => hk (he ▸ ha ▸ hj)
        simp [ha, ha ▸ hne]
      · simp [ha]
    have hrest : (keys.flatMap fun j => (items.filter (!key · == k)).filter (key · == j)).Perm
        (items.filter (!key · == k)) := by
      refine ih hn fun a ha => ?_
      obtain ⟨ha, hne⟩ := List.mem_filter.1 ha
      exact (List.mem_cons.1 (h a ha)).resolve_left (by simpa using hne)
    rw [List.flatMap_cons, hothers]
    exact (hrest.append_left _).trans (List.filter_append_perm _ _)

/-- Each link is counted at the address that it leaves. -/
theorem sum_length_filter_source {addrs : List String} (hn : addrs.Nodup) {links : List Link}
    (h : ∀ l ∈ links, l.source ∈ addrs) :
    (addrs.map fun a => (links.filter (·.source == a)).length).sum = links.length := by
  rw [← List.length_flatMap]
  exact (perm_flatMap_filter hn h).length_eq

namespace Cfg

/-! ### Positions -/

theorem length_links (g : Cfg) : g.links.length = g.edgeCount := by
  rw [links, List.length_map]
  rfl

/-- The identifier of an edge is the place of its ends. -/
theorem edgeId?_eq_some_iff_getElem? {g : Cfg} {s t : String} {e : EdgeId} :
    g.edgeId? s t = some e ↔ (g.links.map Link.ends)[e.index]? = some (s, t) := by
  have hends : ∀ {d}, g.edgeId? s t = some d → (g.links.map Link.ends)[d.index]? = some (s, t) := by
    intro d hd
    obtain ⟨v, w, hs, ht, hf⟩ := edgeId?_eq_some_iff.1 hd
    obtain ⟨l, hl, he⟩ := exists_link_of_findEdge? hs ht hf
    rw [List.getElem?_map, hl, Option.map_some, he]
  refine ⟨hends, fun h => ?_⟩
  cases hd : g.edgeId? s t with
  | none => exact absurd (ends_mem_iff.1 (List.mem_of_getElem? h)) (edgeId?_eq_none_iff.1 hd)
  -- no ends occur twice
  | some d =>
    have hlt := (List.getElem?_eq_some_iff.1 (hends hd)).1
    have hindex := (List.getElem?_inj hlt g.nodup_ends).1 ((hends hd).trans h.symm)
    exact congrArg (some ∘ EdgeId.mk) hindex

/-- An edge keeps its identifier when links are put. -/
theorem edgeId?_of_prefix {g h : Cfg} (hp : g.links.map Link.ends <+: h.links.map Link.ends)
    {s t : String} {e : EdgeId} (he : g.edgeId? s t = some e) : h.edgeId? s t = some e := by
  have hget := edgeId?_eq_some_iff_getElem?.1 he
  obtain ⟨hlt, hends⟩ := List.getElem?_eq_some_iff.1 hget
  rw [edgeId?_eq_some_iff_getElem?, List.prefix_iff_getElem?.1 hp e.index hlt, hends]

theorem succ_eq_ends (g : Cfg) (addr : String) :
    g.succ addr = ((g.links.map Link.ends).filter (·.1 == addr)).map Prod.snd := by
  rw [succ_eq, List.filter_map, List.map_map]
  rfl

theorem pred_eq_ends (g : Cfg) (addr : String) :
    g.pred addr = ((g.links.map Link.ends).filter (·.2 == addr)).map Prod.fst := by
  rw [pred_eq, List.filter_map, List.map_map]
  rfl

theorem edgeCount_eq_sum (g : Cfg) :
    g.edgeCount = ((g.nodes.map Node.addr).map fun a => (g.succ a).length).sum := by
  have hsucc : (fun a => (g.succ a).length) =
      fun a => (g.links.filter (·.source == a)).length := by
    funext a
    rw [succ_eq, List.length_map]
  have hnodup : (g.nodes.map Node.addr).Nodup := g.addrs_nodup
  rw [hsucc, sum_length_filter_source hnodup fun l hl => (mem_links hl).1, length_links]

/-- No two edges have the same ends. -/
theorem endpoints?_inj {g : Cfg} {d e : EdgeId} {p : NodeId × NodeId}
    (hd : g.graph.endpoints? d = some p) (he : g.graph.endpoints? e = some p) : d = e := by
  have hget : ∀ c : EdgeId,
      g.graph.endpoints? c = (g.graph.edges.toList.map Edge.ends)[c.index]? := by
    intro c
    rw [Digraph.endpoints?, List.getElem?_map, Array.getElem?_toList]
  rw [hget] at hd he
  have hlt := (List.getElem?_eq_some_iff.1 hd).1
  exact congrArg EdgeId.mk ((List.getElem?_inj hlt g.ends_nodup).1 (hd.trans he.symm))

/-! ### Adding an edge -/

/-- The graph with both ends of an edge, and their nodes. -/
def withEnds (g : Cfg) (s t : String) : NodeId × NodeId × Cfg :=
  ((g.ensureNode s).1, ((g.ensureNode s).2.ensureNode t).1, ((g.ensureNode s).2.ensureNode t).2)

theorem links_withEnds (g : Cfg) (s t : String) : (g.withEnds s t).2.2.links = g.links := by
  rw [withEnds, links_ensureNode, links_ensureNode]

theorem nodeId?_withEnds_source (g : Cfg) (s t : String) :
    (g.withEnds s t).2.2.nodeId? s = some (g.withEnds s t).1 :=
  nodeId?_of_prefix
    (nodes_ensureNode (g.ensureNode s).2 t ▸ addrs_touch (g.ensureNode s).2.nodes t)
    (nodeId?_ensureNode g s)

theorem nodeId?_withEnds_target (g : Cfg) (s t : String) :
    (g.withEnds s t).2.2.nodeId? t = some (g.withEnds s t).2.1 :=
  nodeId?_ensureNode (g.ensureNode s).2 t

/-- Whether there is an edge does not depend on the nodes that are added for it. -/
theorem findEdge?_withEnds (g : Cfg) (s t : String) :
    (g.withEnds s t).2.2.graph.findEdge? (g.withEnds s t).1 (g.withEnds s t).2.1 =
      g.edgeId? s t := by
  have hid : (g.withEnds s t).2.2.edgeId? s t =
      (g.withEnds s t).2.2.graph.findEdge? (g.withEnds s t).1 (g.withEnds s t).2.1 := by
    rw [edgeId?, nodeId?_withEnds_source, nodeId?_withEnds_target]
    rfl
  rw [← hid]
  refine Option.ext fun e => ?_
  rw [edgeId?_eq_some_iff_getElem?, edgeId?_eq_some_iff_getElem?, links_withEnds]

theorem edgeCount_withEnds (g : Cfg) (s t : String) :
    (g.withEnds s t).2.2.edgeCount = g.edgeCount := by
  rw [← length_links, ← length_links, links_withEnds]

theorem addEdge_eq (g : Cfg) (s t : String) (cond : Option Cond) :
    (g.addEdge s t cond).1 = (g.edgeId? s t).getD ⟨g.edgeCount⟩ := by
  rw [← findEdge?_withEnds, ← edgeCount_withEnds g s t]
  change _ = (((g.ensureNode s).2.ensureNode t).2.graph.findEdge? (g.ensureNode s).1
    ((g.ensureNode s).2.ensureNode t).1).getD ⟨((g.ensureNode s).2.ensureNode t).2.edgeCount⟩
  rw [addEdge]
  dsimp only
  split
  · next h => exact (congrArg (Option.getD · _) h).symm
  · next h => exact (congrArg (Option.getD · _) h).symm

/-- **Adding an edge that is there** gives its identifier, and all neighbours stay where they
are. -/
theorem addEdge_of_edgeId? {g : Cfg} {s t : String} {e : EdgeId} (h : g.edgeId? s t = some e)
    (cond : Option Cond) :
    (g.addEdge s t cond).1 = e ∧ (g.addEdge s t cond).2.edgeCount = g.edgeCount ∧
      (∀ a, (g.addEdge s t cond).2.succ a = g.succ a) ∧
      ∀ a, (g.addEdge s t cond).2.pred a = g.pred a := by
  have hmem : Link.ends ⟨s, t, cond⟩ ∈ g.links.map Link.ends :=
    List.mem_of_getElem? (edgeId?_eq_some_iff_getElem?.1 h)
  have hends : (g.addEdge s t cond).2.links.map Link.ends = g.links.map Link.ends := by
    rw [links_addEdge, ends_putLink_of_mem hmem]
  refine ⟨?_, ?_, fun a => ?_, fun a => ?_⟩
  · rw [addEdge_eq, h, Option.getD_some]
  · have := congrArg List.length hends
    rwa [List.length_map, List.length_map, length_links, length_links] at this
  · rw [succ_eq_ends, succ_eq_ends, hends]
  · rw [pred_eq_ends, pred_eq_ends, hends]

/-- **Adding a new edge** gives the next identifier, and the target comes last behind its source. -/
theorem addEdge_of_edgeId?_eq_none {g : Cfg} {s t : String} (h : g.edgeId? s t = none)
    (cond : Option Cond) :
    (g.addEdge s t cond).1 = ⟨g.edgeCount⟩ ∧
      (g.addEdge s t cond).2.edgeCount = g.edgeCount + 1 ∧
      (∀ a, (g.addEdge s t cond).2.succ a = if a = s then g.succ a ++ [t] else g.succ a) ∧
      ∀ a, (g.addEdge s t cond).2.pred a = if a = t then g.pred a ++ [s] else g.pred a := by
  have hmem : Link.ends ⟨s, t, cond⟩ ∉ g.links.map Link.ends :=
    mt ends_mem_iff.1 (edgeId?_eq_none_iff.1 h)
  have hends : (g.addEdge s t cond).2.links.map Link.ends =
      g.links.map Link.ends ++ [(s, t)] := by
    rw [links_addEdge, ends_putLink_of_not_mem hmem]
    rfl
  refine ⟨?_, ?_, fun a => ?_, fun a => ?_⟩
  · rw [addEdge_eq, h, Option.getD_none]
  · have := congrArg List.length hends
    rwa [List.length_append, List.length_map, List.length_map, length_links, length_links] at this
  · rw [succ_eq_ends, succ_eq_ends, hends]
    by_cases ha : a = s
    · simp [ha]
    · simp [ha, Ne.symm ha]
  · rw [pred_eq_ends, pred_eq_ends, hends]
    by_cases ha : a = t
    · simp [ha]
    · simp [ha, Ne.symm ha]

/-- An edge keeps its identifier when others are added, and the one that is added has the identifier
that is given. -/
theorem edgeId?_addEdge (g : Cfg) (s t : String) (cond : Option Cond) :
    (g.addEdge s t cond).2.edgeId? s t = some (g.addEdge s t cond).1 ∧
      ∀ a b e, g.edgeId? a b = some e → (g.addEdge s t cond).2.edgeId? a b = some e := by
  have hkeep : ∀ a b e, g.edgeId? a b = some e →
      (g.addEdge s t cond).2.edgeId? a b = some e := by
    intro a b e he
    refine edgeId?_of_prefix ?_ he
    rw [links_addEdge]
    exact ends_prefix_putLink g.links _
  refine ⟨?_, hkeep⟩
  cases h : g.edgeId? s t with
  | some e => rw [(addEdge_of_edgeId? h cond).1, hkeep s t e h]
  | none =>
    have hmem : Link.ends ⟨s, t, cond⟩ ∉ g.links.map Link.ends :=
      mt ends_mem_iff.1 (edgeId?_eq_none_iff.1 h)
    rw [edgeId?_eq_some_iff_getElem?, (addEdge_of_edgeId?_eq_none h cond).1, links_addEdge,
      ends_putLink_of_not_mem hmem]
    simp [← length_links, Link.ends]

/-! ### Operations that may fail midway -/

/-- Adds an edge by way of the operation on directed graphs that may refuse it. -/
def tryEdge (g : Cfg) (s t : String) (cond : Option Cond) :
    Except GraphError (EdgeId × Digraph Node (Option Cond)) :=
  match (g.withEnds s t).2.2.graph.findEdge? (g.withEnds s t).1 (g.withEnds s t).2.1 with
  | some e => .ok (e, (g.withEnds s t).2.2.graph.modifyEdge e fun _ => cond)
  | none => (g.withEnds s t).2.2.graph.addEdge (g.withEnds s t).1 (g.withEnds s t).2.1 cond

/-- An edge is never refused, since both its ends are there by then. -/
theorem tryEdge_eq (g : Cfg) (s t : String) (cond : Option Cond) :
    g.tryEdge s t cond = .ok ((g.addEdge s t cond).1, (g.addEdge s t cond).2.graph) := by
  have hs := lt_of_nodeId? (g.nodeId?_withEnds_source s t)
  have ht := lt_of_nodeId? (g.nodeId?_withEnds_target s t)
  rw [tryEdge, addEdge]
  dsimp only [withEnds] at *
  split
  · next e he =>
    split
    · next d hd =>
      obtain rfl := Option.some.inj (he.symm.trans hd)
      rfl
    · next hd => cases he.symm.trans hd
  · next he =>
    split
    · next d hd => cases he.symm.trans hd
    · rw [Digraph.addEdge, dif_pos hs, dif_pos ht]

theorem ensureNode_of_nodeId? {g : Cfg} {addr : String} {v : NodeId} (h : g.nodeId? addr = some v) :
    g.ensureNode addr = (v, g) := by
  rw [ensureNode]
  split
  · next w hw => rw [Option.some.inj (hw.symm.trans h)]
  · next hn => cases hn.symm.trans h

/-- A node that is added for an address has no block. -/
theorem block?_ensureNode (g : Cfg) (addr : String) :
    (g.ensureNode addr).2.block? addr = g.block? addr := by
  cases h : g.nodeId? addr with
  | some v => rw [ensureNode_of_nodeId? h]
  | none =>
    have hnew : (g.ensureNode addr).2.node? addr = some { addr } := by
      rw [node?_eq_some_iff, nodes_ensureNode, touch_of_not_mem (nodeId?_eq_none_iff.1 h)]
      exact ⟨List.mem_append_right _ List.mem_cons_self, rfl⟩
    have hold : g.node? addr = none := by
      rw [node?, h]
      rfl
    rw [block?, block?, hnew, hold]
    rfl

/-- Stores a block where a graph is changed in place: the address is mentioned first, and then its
node is asked for a block. -/
def storeBlock (g : Cfg) (b : Block) : Except GraphError NodeId × Cfg :=
  let (v, h) := g.ensureNode b.addr
  if ((h.nodeAt? v).bind Node.block).isSome then (.error (.duplicateBlock b.addr), h)
  else (.ok v, h.modifyNode v fun n => { n with block := some b })

/-- A block is refused only where its address was known, so that nothing has been added by then. -/
theorem storeBlock_eq (g : Cfg) (b : Block) :
    g.storeBlock b = match g.addBlock b with
      | .ok (v, h) => (.ok v, h)
      | .error e => (.error e, g) := by
  have hblock : ((g.ensureNode b.addr).2.nodeAt? (g.ensureNode b.addr).1).bind Node.block =
      g.block? b.addr := by
    rw [← block?_ensureNode, block?, node?, nodeId?_ensureNode]
    rfl
  rw [storeBlock, addBlock]
  dsimp only
  rw [hblock]
  split
  · next h =>
    obtain ⟨c, hc⟩ := Option.isSome_iff_exists.1 h
    obtain ⟨n, hn, -⟩ := Option.bind_eq_some_iff.1 hc
    obtain ⟨v, hv, -⟩ := Option.bind_eq_some_iff.1 hn
    rw [ensureNode_of_nodeId? hv]
  · rfl

end Cfg

end FlowText
