import FlowText.Proofs.EdgeIds
import FlowText.Proofs.NodeChanges
import FlowText.Proofs.Showing
import FlowText.Proofs.Sketches

/-!
# Faithful drawings

The drawing of a graph is the text of its sketch (`Cfg.draw_eq_sketch`), and the sketch tells of the
graph as it is (`Drawing.Sketch.Shows`): each node once, in the natural order of the addresses, and
each edge once, at its source and in the order of its source's successors. So a drawing exists if
the renderer refuses no instruction, and then it is faithful whatever the texts in it are
(`drawing_is_faithful`).
-/

namespace FlowText

open Drawing

namespace Cfg

variable (g : Cfg) (title : Option String) (render : Renderer)

/-- What the line of a node tells, if the renderer refuses none of its instructions. -/
def nodeLine (v : NodeId) : Except Error NodeLine :=
  (((g.nodeAt? v).bind Node.block).mapM (·.shown render) : Except Error _).map fun texts =>
    { id := v
      addr := g.addrAt v
      isEntry := g.entryId? = some v
      number := (g.nodeAt? v).bind Node.number
      texts := texts.getD []
      fill := g.fill v }

/-- The edges in the order of their sources. -/
def drawnEdges : List (Edge (Option Cond)) :=
  g.sortedIds.flatMap fun v => g.graph.edges.toList.filter (·.source == v)

/-- The sketch of a graph, if the renderer refuses no instruction. -/
def sketch : Except Error Sketch :=
  (g.sortedIds.mapM (g.nodeLine render)).map fun nodes => ⟨title, nodes, g.drawnEdges⟩

theorem drawNode_eq {v : NodeId} (h : v ∈ g.sortedIds) :
    g.drawNode render v = (g.nodeLine render v).map (·.text ++ "\n") := by
  obtain ⟨n, hn⟩ : ∃ n, g.nodeAt? v = some n :=
    ⟨_, Array.getElem?_eq_getElem (lt_of_mem_sortedIds h)⟩
  have hend : "];\n" = "];" ++ "\n" := by decide
  rw [drawNode, nodeLine, addrAt, hn]
  dsimp only [Option.bind_some]
  cases n.block.mapM (·.shown render) with
  | error e => rfl
  | ok texts =>
    refine congrArg Except.ok ?_
    simp only [NodeLine.text, NodeLine.label, heading, hend, String.append_assoc, decide_eq_true_eq]
    rfl

theorem drawEdge_eq (e : Edge (Option Cond)) : drawEdge e = edgeText e ++ "\n" := by
  rw [drawEdge, edgeText, edgeLabel?]
  have hend : ";\n" = ";" ++ "\n" := by decide
  cases e.data <;> simp only [hend, String.append_assoc, Option.map_some, Option.map_none]

/-- The head is written as its lines. -/
theorem header_eq (s : Sketch) : header s.title = unlines s.head := by
  obtain ⟨title, nodes, edges⟩ := s
  have hdefaults :
      "    labelloc=t;\n    node [shape=box, fontname=\x22Courier\x22, fontsize=10];\n" ++
      "    edge [fontname=\x22Courier\x22, fontsize=9];\n\n" =
      unlines ["    labelloc=t;", "    node [shape=box, fontname=\x22Courier\x22, fontsize=10];",
        "    edge [fontname=\x22Courier\x22, fontsize=9];", ""] := by decide
  have hfirst : "digraph CFG \x7b\n" = "digraph CFG \x7b" ++ "\n" := by decide
  rw [Sketch.head, unlines_append, ← hdefaults, ← String.append_assoc, unlines, ← hfirst]
  cases title with
  | none => rfl
  | some t =>
    have htitle : unlines ["    " ++ label ("CFG: " ++ Label.escape t) ++ ";"] =
        "    " ++ label ("CFG: " ++ Label.escape t) ++ ";\n" := by
      rw [unlines_singleton, String.append_assoc]
      rfl
    exact congrArg (fun line => "digraph CFG \x7b\n" ++ line ++ _ ++ _) htitle.symm

/-- **The drawing of a graph is the text of its sketch.** -/
theorem draw_eq_sketch : g.draw title render = (g.sketch title render).map Sketch.text := by
  rw [draw, sketch, mapM_congr_of_mem fun v hv => g.drawNode_eq render hv, mapM_map_result]
  cases g.sortedIds.mapM (g.nodeLine render) with
  | error e => rfl
  | ok nodes =>
    refine congrArg Except.ok ?_
    have hedges : String.join (g.sortedIds.map g.drawEdges) =
        unlines (g.drawnEdges.map edgeText) := by
      have hlines : (· ++ "\n") ∘ edgeText = drawEdge := funext fun e => (drawEdge_eq e).symm
      rw [unlines_eq_join, List.map_map, hlines, drawnEdges, List.map_flatMap, join_flatMap]
      rfl
    have hnodes : String.join (nodes.map (·.text ++ "\n")) = unlines (nodes.map NodeLine.text) := by
      rw [unlines_eq_join, List.map_map]
      rfl
    rw [Sketch.text, Sketch.lines, unlines_append, unlines_append, unlines_append,
      unlines_append, ← hedges, ← hnodes, ← header_eq]
    rfl

end Cfg

/-! ### What a sketch tells -/

namespace Drawing

/-- The line tells of its node as the graph does. -/
structure NodeLine.Shows (l : NodeLine) (g : Cfg) (render : Renderer) : Prop where
  id : g.nodeId? l.addr = some l.id
  entry : l.isEntry = true ↔ g.entry? = some l.addr
  number : l.number = g.number? l.addr
  /-- the texts of its instructions, or none if there is no block -/
  texts : match g.block? l.addr with
    | some b => b.shown render = .ok l.texts
    | none => l.texts = []
  fill : l.fill = if l.isEntry then .entry else if (g.succ l.addr).isEmpty then .exit else .plain

/-- **Shows.** The sketch tells of each node and of each edge once, and in order. -/
structure Sketch.Shows (s : Sketch) (g : Cfg) (render : Renderer) : Prop where
  nodes : ∀ l ∈ s.nodes, l.Shows g render
  addrs : s.nodes.map NodeLine.addr = g.sortedAddrs
  /-- the addresses go up in the natural order -/
  order : (s.nodes.map NodeLine.addr).Pairwise fun a b => natural a b = .lt
  node_count : s.nodes.length = g.nodeCount
  /-- the names tell the nodes apart -/
  names : (s.nodes.map fun l => name l.id).Nodup
  one_entry : 0 < g.nodeCount → (s.nodes.filter NodeLine.isEntry).length = 1
  /-- source by source, in the order of the successors, with the conditions -/
  edges : s.edges.map g.linkOf =
    g.sortedAddrs.flatMap fun a => (g.succ a).map fun b => ⟨a, b, g.edgeCond? a b⟩
  edge_count : s.edges.length = g.edgeCount
  /-- an edge goes by the names of its ends -/
  ends : ∀ e ∈ s.edges, g.nodeId? (g.linkOf e).source = some e.source ∧
    g.nodeId? (g.linkOf e).target = some e.target

end Drawing

namespace Cfg

variable {g : Cfg} {render : Renderer}

theorem id_nodeLine {v : NodeId} {l : NodeLine} (h : g.nodeLine render v = .ok l) : v = l.id := by
  obtain ⟨texts, -, rfl⟩ := ok_of_map h
  rfl

theorem addr_nodeLine {v : NodeId} {l : NodeLine} (h : g.nodeLine render v = .ok l) :
    g.addrAt v = l.addr := by
  obtain ⟨texts, -, rfl⟩ := ok_of_map h
  rfl

theorem nodeLine_shows {v : NodeId} {l : NodeLine} (hv : v ∈ g.sortedIds)
    (h : g.nodeLine render v = .ok l) : l.Shows g render := by
  obtain ⟨texts, htexts, rfl⟩ := ok_of_map h
  have hlt := lt_of_mem_sortedIds hv
  have hnode := node?_addrAt hlt
  refine ⟨nodeId?_addrAt hlt, ?_, ?_, ?_, ?_⟩
  · rw [Cfg.entry?, decide_eq_true_eq, Option.map_eq_some_iff]
    refine ⟨fun he => ⟨v, he, rfl⟩, ?_⟩
    rintro ⟨w, hw, he⟩
    rw [hw, addrAt_inj (entryId?_lt hw) hlt he]
  · rw [number?, hnode]
  · rw [block?, hnode]
    cases hb : (g.nodeAt? v).bind Node.block with
    | none =>
      rw [hb] at htexts
      cases htexts
      rfl
    | some b =>
      rw [hb, Option.mapM_some] at htexts
      obtain ⟨shown, hshown, rfl⟩ := ok_of_map htexts
      exact hshown
  · rw [fill, succ_addrAt hlt, List.isEmpty_map]
    simp only [decide_eq_true_eq]

/-- The links of a source, by its successors. -/
theorem filter_source_links (g : Cfg) (a : String) :
    g.links.filter (·.source == a) = (g.succ a).map fun b => ⟨a, b, g.edgeCond? a b⟩ := by
  rw [succ_eq, List.map_map]
  refine (List.map_id _).symm.trans (List.map_congr_left fun l hl => ?_)
  obtain ⟨hmem, ha⟩ := List.mem_filter.1 hl
  obtain rfl := eq_of_beq ha
  change l = ⟨l.source, l.target, g.edgeCond? l.source l.target⟩
  rw [edgeCond?_of_mem hmem]

theorem perm_drawnEdges (g : Cfg) : g.drawnEdges.Perm g.graph.edges.toList :=
  perm_flatMap_filter g.nodup_sortedIds fun e he =>
    mem_sortedIds.2 (g.graph.source_lt e (Array.mem_def.2 he))

theorem links_drawnEdges (g : Cfg) : g.drawnEdges.map g.linkOf =
    g.sortedAddrs.flatMap fun a => (g.succ a).map fun b => ⟨a, b, g.edgeCond? a b⟩ := by
  rw [drawnEdges, List.map_flatMap, sortedAddrs, List.flatMap_map]
  refine List.flatMap_congr fun v hv => ?_
  rw [← filter_source_links,
    filter_links_of_nodeId? (nodeId?_addrAt (lt_of_mem_sortedIds hv)) Edge.source
    Link.source (fun _ => rfl) g.graph.source_lt]

theorem length_sortedIds (g : Cfg) : g.sortedIds.length = g.nodeCount := by
  rw [sortedIds, List.length_map, sortByName, List.length_mergeSort, Digraph.nodeList,
    List.length_map, List.length_zipIdx, Array.length_toList]
  rfl

theorem name_injective : Function.Injective name := by
  rintro ⟨i⟩ ⟨j⟩ h
  have hname : "B" ++ i.repr = "B" ++ j.repr := h
  rw [Nat.repr_inj.1 ((String.append_right_inj "B").1 hname)]

/-- Where there is a node, there is an entry. -/
theorem exists_entry (h : 0 < g.nodeCount) : ∃ a, g.entry? = some a := by
  have hne : g.isEmpty = false := by
    rw [← Bool.not_eq_true, isEmpty_iff, ← List.length_eq_zero_iff]
    exact Nat.ne_of_gt h
  have hid : ∃ v, g.entryId? = some v := by
    rw [entryId?, hne]
    cases g.chosen with
    | none => exact ⟨⟨0⟩, rfl⟩
    | some v => exact ⟨v, rfl⟩
  obtain ⟨v, hv⟩ := hid
  exact ⟨g.addrAt v, congrArg (Option.map g.addrAt) hv⟩

/-- **The sketch of a graph shows it.** -/
theorem sketch_shows {title : Option String} {s : Sketch} (h : g.sketch title render = .ok s) :
    s.title = title ∧ s.Shows g render := by
  obtain ⟨nodes, hnodes, rfl⟩ := ok_of_map h
  have hlines := mapM_eq_ok_iff.1 hnodes
  have hids : g.sortedIds.map name = nodes.map fun l => name l.id :=
    map_eq_map_of_forall₂ hlines fun v l hl => congrArg name (id_nodeLine hl)
  have haddrs : g.sortedAddrs = nodes.map NodeLine.addr :=
    map_eq_map_of_forall₂ hlines fun v l hl => addr_nodeLine hl
  have hshows : ∀ l ∈ nodes, l.Shows g render := by
    intro l hl
    obtain ⟨v, hv, hline⟩ := exists_mem_of_forall₂ hlines.flip hl
    exact nodeLine_shows hv hline
  refine ⟨rfl, ⟨hshows, haddrs.symm, ?_, ?_, ?_,
    fun hpos => ?_, links_drawnEdges g, g.perm_drawnEdges.length_eq, fun e he => ?_⟩⟩
  · rw [← haddrs, sortedAddrs_eq]
    exact pairwise_natural_lt g.addrs_nodup
  · rw [← length_sortedIds]
    exact hlines.length_eq.symm
  · rw [← hids]
    exact g.nodup_sortedIds.map name_injective
  -- no address occurs twice, so that of the entry occurs once
  · obtain ⟨a, ha⟩ := exists_entry hpos
    have hentry : ∀ l ∈ nodes, NodeLine.isEntry l = (l.addr == a) := by
      intro l hl
      rw [Bool.eq_iff_iff, (hshows l hl).entry, ha, beq_iff_eq, Option.some.injEq, eq_comm]
    have hcount := List.Nodup.count (a := a) g.nodup_sortedAddrs
    rw [if_pos (mem_sortedAddrs.2 (Cfg.mem_of_entry? ha)), haddrs, List.count,
      List.countP_map] at hcount
    rw [List.filter_congr hentry, ← List.countP_eq_length_filter]
    exact hcount
  · have hmem := Array.mem_def.2 (g.perm_drawnEdges.mem_iff.1 he)
    exact ⟨nodeId?_addrAt (g.graph.source_lt e hmem), nodeId?_addrAt (g.graph.target_lt e hmem)⟩

end Cfg

/-- **Drawings are faithful, and no text can break them.** If the renderer refuses no instruction,
there is a drawing. Behind its head it has one line for each node and one for each edge, in order,
and no others. Whatever the addresses, the rendered instructions, the conditions and the title are,
each label is contained between its quotes, so that nothing but the labels and the fixed strings is
read as quoted text.

If an instruction is refused, the first one that is refused decides the error, in the natural order
of the addresses and then in the order of its block. -/
theorem drawing_is_faithful (g : Cfg) (title : Option String) (render : Renderer) :
    ((∀ i ∈ g.view.insts, ∃ shown, render i = .ok shown) →
      ∃ s : Sketch, g.draw title render = .ok s.text ∧ s.title = title ∧ s.Shows g render ∧
        s.text.toList.count '\n' = 7 + g.nodeCount + g.edgeCount + title.toList.length ∧
        (∀ l ∈ s.labels, Label.Contained l.toList) ∧
        Label.Reads s.text.toList (s.strings.map String.toList)) ∧
    ∀ e, g.draw title render = .error e ↔ ∃ before i after, g.view.insts = before ++ i :: after ∧
      (∀ j ∈ before, ∃ shown, render j = .ok shown) ∧ render i = .error e := by
  refine ⟨fun hrender => ?_, fun e => (g.draw_failsAs title render).error_iff⟩
  obtain ⟨text, htext⟩ := (g.draw_failsAs title render).exists_ok hrender
  rw [g.draw_eq_sketch] at htext
  obtain ⟨s, hs, rfl⟩ := ok_of_map htext
  obtain ⟨rfl, hshows⟩ := Cfg.sketch_shows hs
  refine ⟨s, ?_, rfl, hshows, ?_, s.contained, s.reads_text⟩
  · rw [g.draw_eq_sketch, hs]
    rfl
  · rw [s.count_feeds, hshows.node_count, hshows.edge_count]

/-- A graph whose texts look like the end of a label, or of the drawing. -/
def hostileGraph : Cfg where
  graph :=
    { nodes := #[⟨"a\x22];\n\x7d", some ⟨"", [.ret]⟩, none⟩, ⟨"b\\", none, some 1⟩]
      edges := #[⟨⟨0⟩, ⟨1⟩, some (.simple (.reg "\x22\r\n") .eq (.addr "\\\x22"))⟩]
      source_lt := by decide
      target_lt := by decide }
  addrs_nodup := by decide
  ends_nodup := by decide

/-- It is drawn with its two nodes, its edge and its title all the same. -/
theorem hostile_graph_drawn :
    ∃ s : Sketch, hostileGraph.draw (some "\x22\x7d\n\\") (fun _ => .ok (some "\x22];")) =
      .ok s.text ∧ s.text.toList.count '\n' = 11 ∧ (∀ l ∈ s.labels, Label.Contained l.toList) := by
  obtain ⟨s, hdraw, -, -, hcount, hlabels, -⟩ :=
    (drawing_is_faithful hostileGraph (some "\x22\x7d\n\\") fun _ => .ok (some "\x22];")).1
      fun _ _ => ⟨_, rfl⟩
  exact ⟨s, hdraw, hcount.trans (by decide), hlabels⟩

end FlowText
