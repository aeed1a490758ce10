import FlowText.Proofs.EdgeLists

/-!
# Graphs as tables of neighbours

Beside its edges, a graph may keep two tables that tell for each node which edges leave it and which
ones lead to it. A query then looks up a row and goes on to the edges by their identifiers, and
nothing but the order in which the tables were filled makes sure that these are there. So every
look-up behind the first one may fail here (`none`). The tables that belong to a graph are those
that requests make (`Digraph.on?_tables`), and no look-up in them ever fails
(`adjacency_is_edge_list`).
-/

namespace FlowText

variable {ν ε : Type}

/-- **Tables of neighbours.** A row for each node, on both sides of the edges. -/
structure Adjacency (ν ε : Type) where
  nodes : List ν := []
  edges : List (Edge ε) := []
  outgoing : List (List EdgeId) := []
  incoming : List (List EdgeId) := []

namespace Adjacency

/-- Puts an edge at the end of the row of a node, which has to be there. -/
def putAt? (rows : List (List EdgeId)) (v : NodeId) (e : EdgeId) : Option (List (List EdgeId)) :=
  if v.index < rows.length then some (rows.modify v.index (· ++ [e])) else none

/-- Answers a request. -/
def on? (a : Adjacency ν ε) :
    GraphRequest ν ε → Option (Except GraphError GraphReply × Adjacency ν ε)
  | .addNode data => some (.ok (.node ⟨a.nodes.length⟩), { a with
      nodes := a.nodes ++ [data]
      outgoing := a.outgoing ++ [[]]
      incoming := a.incoming ++ [[]] })
  | .addEdge source target data =>
    if a.nodes.length ≤ source.index then some (.error (.noSource source a.nodes.length), a)
    else if a.nodes.length ≤ target.index then some (.error (.noTarget target a.nodes.length), a)
    else do
      let e : EdgeId := ⟨a.edges.length⟩
      let outgoing ← putAt? a.outgoing source e
      let incoming ← putAt? a.incoming target e
      return (.ok (.edge e), { a with
        edges := a.edges ++ [⟨source, target, data⟩], outgoing, incoming })
  | .modifyNode v f => some (.ok .done, { a with nodes := a.nodes.modify v.index f })
  | .mapNodes f => some (.ok .done, { a with nodes := a.nodes.map f })
  | .modifyEdge e f => some (.ok .done, { a with
      edges := a.edges.modify e.index fun x => { x with data := f x.data } })

/-- Answers a row of requests. -/
def answers? (a : Adjacency ν ε) :
    List (GraphRequest ν ε) → Option (List (Except GraphError GraphReply) × Adjacency ν ε)
  | [] => some ([], a)
  | r :: rs => do
    let (reply, a) ← a.on? r
    let (replies, a) ← a.answers? rs
    return (reply :: replies, a)

/-- The row of a node. What is no node has none. -/
def row (rows : List (List EdgeId)) (v : NodeId) : List EdgeId := rows[v.index]?.getD []

/-- Looks up the edges of a row. -/
def edgesOf? (a : Adjacency ν ε) {α : Type} (f : EdgeId → Edge ε → α) (es : List EdgeId) :
    Option (List α) :=
  es.mapM fun e => a.edges[e.index]?.map (f e)

/-- Where the edges of a node lead. -/
def successors? (a : Adjacency ν ε) (v : NodeId) : Option (List NodeId) :=
  a.edgesOf? (fun _ x => x.target) (row a.outgoing v)

/-- Where the edges to a node come from. -/
def predecessors? (a : Adjacency ν ε) (v : NodeId) : Option (List NodeId) :=
  a.edgesOf? (fun _ x => x.source) (row a.incoming v)

/-- The edges that leave a node, with what they carry. -/
def outgoing? (a : Adjacency ν ε) (v : NodeId) : Option (List (EdgeId × ε)) :=
  a.edgesOf? (fun e x => (e, x.data)) (row a.outgoing v)

/-- The first edge of a row that leads to a node. Those behind it are not looked up. -/
def firstTo? (a : Adjacency ν ε) (target : NodeId) : List EdgeId → Option (Option EdgeId)
  | [] => some none
  | e :: es => do
    let x ← a.edges[e.index]?
    if x.target = target then return some e else a.firstTo? target es

/-- The first edge from one node to another. -/
def findEdge? (a : Adjacency ν ε) (source target : NodeId) : Option (Option EdgeId) :=
  a.firstTo? target (row a.outgoing source)

end Adjacency

/-! ### The tables of a graph -/

namespace EdgeList

/-- The rows of all nodes, on one side of the edges. -/
def rows (count : Nat) (sides : List NodeId) : List (List EdgeId) :=
  (List.range count).map fun i => placesOf sides ⟨i⟩

/-- One more edge adds one place to one row. -/
theorem placesOf_append (sides : List NodeId) (v w : NodeId) :
    placesOf (sides ++ [w]) v = placesOf sides v ++ if w = v then [⟨sides.length⟩] else [] := by
  rw [placesOf, placesOf, List.zipIdx_append, List.filter_append, List.map_append]
  congr 1
  by_cases hw : w = v
  · simp [hw]
  · simp [hw]

/-- There is a row for each node, with the places of its edges. -/
theorem getElem?_rows (count : Nat) (sides : List NodeId) (i : Nat) :
    (rows count sides)[i]? = if i < count then some (placesOf sides ⟨i⟩) else none := by
  rw [rows, List.getElem?_map]
  by_cases hi : i < count
  · rw [List.getElem?_range hi, if_pos hi, Option.map_some]
  · rw [if_neg hi, List.getElem?_eq_none (by simpa using hi), Option.map_none]

/-- **One more edge** is one more place, at the end of a row. -/
theorem putAt?_rows {count : Nat} {w : NodeId} (hw : w.index < count) (sides : List NodeId) :
    Adjacency.putAt? (rows count sides) w ⟨sides.length⟩ = some (rows count (sides ++ [w])) := by
  rw [Adjacency.putAt?, if_pos (by simpa [rows] using hw)]
  refine congrArg some (List.ext_getElem? fun i => ?_)
  rw [List.getElem?_modify, getElem?_rows, getElem?_rows]
  by_cases hi : i < count
  · rw [if_pos hi, if_pos hi, Option.map_eq_map, Option.map_some, placesOf_append]
    by_cases hwi : w.index = i
    · obtain rfl : w = ⟨i⟩ := congrArg NodeId.mk hwi
      rw [if_pos rfl, if_pos rfl]
    · have hne : w ≠ ⟨i⟩ := fun he => hwi (congrArg NodeId.index he)
      rw [if_neg hwi, if_neg hne, List.append_nil]
  · rw [if_neg hi, if_neg hi]
    rfl

/-- What is no side of an edge has no places. -/
theorem placesOf_eq_nil {sides : List NodeId} {v : NodeId} (h : v ∉ sides) :
    placesOf sides v = [] := by
  rw [placesOf, List.map_eq_nil_iff, List.filter_eq_nil_iff]
  rintro ⟨w, i⟩ hw hv
  exact h (eq_of_beq hv ▸ List.fst_mem_of_mem_zipIdx hw)

/-- **One more node** is one more row, which is empty. -/
theorem rows_succ {count : Nat} {sides : List NodeId} (h : ∀ v ∈ sides, v.index < count) :
    rows (count + 1) sides = rows count sides ++ [[]] := by
  rw [rows, List.range_succ, List.map_append, List.map_singleton,
    placesOf_eq_nil fun hmem => Nat.lt_irrefl _ (h _ hmem)]
  rfl

/-- The row of a node, or none. -/
theorem row_rows {count : Nat} {sides : List NodeId}
    (h : ∀ v ∈ sides, v.index < count) (v : NodeId) :
    Adjacency.row (rows count sides) v = placesOf sides v := by
  rw [Adjacency.row, getElem?_rows]
  by_cases hv : v.index < count
  · rw [if_pos hv]
    rfl
  · rw [if_neg hv, placesOf_eq_nil fun hmem => hv (h v hmem)]
    rfl

end EdgeList

namespace Digraph

/-- **The tables of a graph.** -/
def tables (g : Digraph ν ε) : Adjacency ν ε where
  nodes := g.nodes.toList
  edges := g.edges.toList
  outgoing := EdgeList.rows g.nodeCount (g.edges.toList.map Edge.source)
  incoming := EdgeList.rows g.nodeCount (g.edges.toList.map Edge.target)

/-- The nodes on one side of the edges are nodes of the graph. -/
theorem lt_of_mem_sides {g : Digraph ν ε} {side : Edge ε → NodeId}
    (h : ∀ x ∈ g.edges, (side x).index < g.nodeCount) :
    ∀ v ∈ g.edges.toList.map side, v.index < g.nodeCount := by
  intro v hv
  obtain ⟨x, hx, rfl⟩ := List.mem_map.1 hv
  exact h x (Array.mem_def.2 hx)

/-- **A request.** The tables of a graph become those of the graph that is left, and no row is
missing. -/
theorem on?_tables (g : Digraph ν ε) (r : GraphRequest ν ε) :
    g.tables.on? r = some ((g.on r).1, (g.on r).2.tables) := by
  cases r with
  | addNode data =>
    have hout := EdgeList.rows_succ (lt_of_mem_sides g.source_lt)
    have hin := EdgeList.rows_succ (lt_of_mem_sides g.target_lt)
    simpa [Adjacency.on?, on, addNode, tables, nodeCount] using ⟨hout.symm, hin.symm⟩
  | addEdge source target data =>
    by_cases hs : source.index < g.nodes.size
    · by_cases ht : target.index < g.nodes.size
      · have hout := EdgeList.putAt?_rows hs (g.edges.toList.map Edge.source)
        have hin := EdgeList.putAt?_rows ht (g.edges.toList.map Edge.target)
        rw [List.length_map, Array.length_toList] at hout hin
        simp [Adjacency.on?, on, addEdge, connect, tables, nodeCount, hs, ht, Nat.not_le.2 hs,
          Nat.not_le.2 ht, hout, hin]
      · simp [Adjacency.on?, on, addEdge, tables, nodeCount, hs, ht, Nat.not_le.2 hs,
          Nat.not_lt.1 ht]
    · simp [Adjacency.on?, on, addEdge, tables, nodeCount, hs, Nat.not_lt.1 hs]
  | modifyNode v f => simp [Adjacency.on?, on, modifyNode, tables, nodeCount]
  | mapNodes f => simp [Adjacency.on?, on, mapNodes, tables, nodeCount]
  | modifyEdge e f =>
    have hsource (x : Edge ε) : Edge.source { x with data := f x.data } = x.source := rfl
    have htarget (x : Edge ε) : Edge.target { x with data := f x.data } = x.target := rfl
    simp [Adjacency.on?, on, modifyEdge, tables, nodeCount,
      map_modify_of_eq hsource, map_modify_of_eq htarget]

/-- **A row of requests.** No row is ever missing on the way. -/
theorem answers?_tables (g : Digraph ν ε) (rs : List (GraphRequest ν ε)) :
    g.tables.answers? rs = some ((answers on g rs).1, (g.after rs).tables) := by
  induction rs generalizing g with
  | nil => rfl
  | cons r rs ih =>
    rw [Adjacency.answers?, on?_tables]
    change (g.on r).2.tables.answers? rs >>= _ = _
    rw [ih]
    rfl

/-! ### Queries -/

theorem edges_tables (g : Digraph ν ε) : g.tables.edges = g.edgeList.edges := rfl

/-- **A row is looked up**, and every edge in it is there. -/
theorem edgesOf?_incident (g : Digraph ν ε) (side : Edge ε → NodeId) (v : NodeId) {α : Type}
    (f : EdgeId → Edge ε → α) : g.tables.edgesOf? f ((g.edgeList.incident side v).map Prod.fst) =
      some ((g.edgeList.incident side v).map fun p => f p.1 p.2) := by
  have hmem : ∀ p ∈ g.edgeList.incident side v, g.edgeList.edges[p.1.index]? = some p.2 :=
    fun p hp => (EdgeList.mem_incident.1 hp).1
  rw [Adjacency.edgesOf?, edges_tables]
  generalize g.edgeList.incident side v = ps at hmem
  induction ps with
  | nil => rfl
  | cons p ps ih =>
    obtain ⟨hp, hps⟩ := List.forall_mem_cons.1 hmem
    rw [List.map_cons, List.mapM_cons, hp, ih hps]
    rfl

/-- The first edge of a row that leads to a node. -/
theorem firstTo?_incident (g : Digraph ν ε) (side : Edge ε → NodeId) (v target : NodeId) :
    g.tables.firstTo? target ((g.edgeList.incident side v).map Prod.fst) =
      some (((g.edgeList.incident side v).find? fun p => p.2.target == target).map Prod.fst) := by
  have hmem : ∀ p ∈ g.edgeList.incident side v, g.edgeList.edges[p.1.index]? = some p.2 :=
    fun p hp => (EdgeList.mem_incident.1 hp).1
  generalize g.edgeList.incident side v = ps at hmem
  induction ps with
  | nil => rfl
  | cons p ps ih =>
    obtain ⟨hp, hps⟩ := List.forall_mem_cons.1 hmem
    rw [List.map_cons, Adjacency.firstTo?, edges_tables, hp, List.find?_cons]
    change (if p.2.target = target then _ else _) = _
    by_cases ht : p.2.target = target
    · rw [if_pos ht, beq_iff_eq.2 ht]
      rfl
    · rw [if_neg ht, beq_eq_false_iff_ne.2 ht, ih hps]

/-- The row of a node holds the edges that leave it. -/
theorem row_outgoing (g : Digraph ν ε) (v : NodeId) :
    Adjacency.row g.tables.outgoing v = (g.edgeList.incident Edge.source v).map Prod.fst := by
  rw [EdgeList.map_fst_incident]
  exact EdgeList.row_rows (lt_of_mem_sides g.source_lt) v

/-- The other one holds those that come in. -/
theorem row_incoming (g : Digraph ν ε) (v : NodeId) :
    Adjacency.row g.tables.incoming v = (g.edgeList.incident Edge.target v).map Prod.fst := by
  rw [EdgeList.map_fst_incident]
  exact EdgeList.row_rows (lt_of_mem_sides g.target_lt) v

/-- **The look-ups for successors** all succeed. -/
theorem successors?_tables (g : Digraph ν ε) (v : NodeId) :
    g.tables.successors? v = some (g.successors v) := by
  rw [Adjacency.successors?, row_outgoing, edgesOf?_incident, successors_eq]

/-- So do those for predecessors. -/
theorem predecessors?_tables (g : Digraph ν ε) (v : NodeId) :
    g.tables.predecessors? v = some (g.predecessors v) := by
  rw [Adjacency.predecessors?, row_incoming, edgesOf?_incident, predecessors_eq]

/-- So do those for edges with what they carry. -/
theorem outgoing?_tables (g : Digraph ν ε) (v : NodeId) :
    g.tables.outgoing? v = some (g.outgoing v) := by
  rw [Adjacency.outgoing?, row_outgoing, edgesOf?_incident, outgoing_eq]

/-- So do those for an edge between two nodes. -/
theorem findEdge?_tables (g : Digraph ν ε) (s t : NodeId) :
    g.tables.findEdge? s t = some (g.findEdge? s t) := by
  rw [Adjacency.findEdge?, row_outgoing, firstTo?_incident, findEdge?_eq, EdgeList.incident,
    List.find?_filter, List.find?_map, List.findIdx?_eq_fst_find?_zipIdx,
    Option.map_map, Option.map_map]
  have hends :
      (fun p : Edge ε × Nat => decide ((p.1.source == s) = true ∧ (p.1.target == t) = true)) =
      fun p => p.1.ends == (s, t) := by
    funext p
    rw [Bool.eq_iff_iff]
    simp [Edge.ends]
  exact congrArg
    (fun q => some ((g.edgeList.edges.zipIdx.find? q).map fun p => EdgeId.mk p.2)) hends

/-- **Stored as tables.** The tables answer every query of the graph, and no look-up fails. -/
structure StoredAs (g : Digraph ν ε) (a : Adjacency ν ε) : Prop where
  nodes : a.nodes = g.nodes.toList
  edges : a.edges = g.edges.toList
  successors (v : NodeId) : a.successors? v = some (g.successors v)
  predecessors (v : NodeId) : a.predecessors? v = some (g.predecessors v)
  outgoing (v : NodeId) : a.outgoing? v = some (g.outgoing v)
  findEdge (s t : NodeId) : a.findEdge? s t = some (g.findEdge? s t)

/-- **The tables** of a graph stand for it. -/
theorem storedAs_tables (g : Digraph ν ε) : g.StoredAs g.tables where
  nodes := rfl
  edges := rfl
  successors := g.successors?_tables
  predecessors := g.predecessors?_tables
  outgoing := g.outgoing?_tables
  findEdge := g.findEdge?_tables

end Digraph

/-- **A graph is its edge list**, and so are the tables of neighbours. Whatever is asked for, one
request after the other, each is answered as the edge list does, and no look-up in the tables fails.
The nodes and edges have the identifiers from zero on, in the order in which they were added. Every
query is answered by the edges in this order; an edge keeps its ends; and an edge that does not lead
from a node to a node is refused, which changes nothing. -/
theorem adjacency_is_edge_list {ν ε : Type} (rs : List (GraphRequest ν ε)) :
    ∃ replies g, answers Digraph.on Digraph.empty rs = (replies, g) ∧
      answers EdgeList.on {} rs = (replies, g.edgeList) ∧
      (∃ a, Adjacency.answers? {} rs = some (replies, a) ∧ g.StoredAs a ∧
        ∀ s t data, ¬ (s.index < g.nodeCount ∧ t.index < g.nodeCount) →
          ∃ e, g.on (.addEdge s t data) = (.error e, g) ∧
            a.on? (.addEdge s t data) = some (.error e, a)) ∧
      (∀ s t data, s.index < g.nodeCount → t.index < g.nodeCount →
        ∃ g', g.on (.addEdge s t data) = (.ok (.edge ⟨g.edgeCount⟩), g') ∧
          g'.endpoints? ⟨g.edgeCount⟩ = some (s, t) ∧ g'.edge? ⟨g.edgeCount⟩ = some data) ∧
      replies.filterMap newNode? = g.nodeIds ∧
      replies.filterMap newEdge? = (List.range g.edgeCount).map EdgeId.mk ∧
      g.AnswersByEdges ∧
      ∀ e p, g.endpoints? e = some p → ∀ more, (g.after more).endpoints? e = some p := by
  obtain ⟨⟨k, hk, hnodes⟩, m, hm, hedges⟩ := Digraph.newIds_answers (.empty : Digraph ν ε) rs
  have hk' : (answers Digraph.on (.empty : Digraph ν ε) rs).2.nodeCount = k :=
    hk.trans (Nat.zero_add k)
  have hm' : (answers Digraph.on (.empty : Digraph ν ε) rs).2.edgeCount = m :=
    hm.trans (Nat.zero_add m)
  refine ⟨_, _, rfl, answers_of_view Digraph.edgeList_on .empty rs,
    ⟨_, Digraph.answers?_tables .empty rs, Digraph.storedAs_tables _, fun s t data h => ?_⟩,
    fun s t data hs ht => Digraph.on_addEdge hs ht data, ?_, ?_, Digraph.answersByEdges _,
    fun e p h more => Digraph.endpoints?_after h more⟩
  · obtain ⟨e, he⟩ := Digraph.on_addEdge_refused h data
    refine ⟨e, he, ?_⟩
    have htables := Digraph.on?_tables (answers Digraph.on Digraph.empty rs).2 (.addEdge s t data)
    rwa [he] at htables
  · rw [Digraph.nodeIds, hk', List.range_eq_range']
    exact hnodes
  · rw [hm', List.range_eq_range']
    exact hedges

/-- Two edges lead from one node to another, and one between them is refused. -/
theorem parallel_edges_kept :
    ∃ a, Adjacency.answers? ({} : Adjacency String Nat)
        [.addNode "a", .addNode "b", .addEdge ⟨0⟩ ⟨1⟩ 5, .addEdge ⟨0⟩ ⟨7⟩ 6, .addEdge ⟨0⟩ ⟨1⟩ 7,
          .modifyEdge ⟨1⟩ (· + 10)] =
        some ([.ok (.node ⟨0⟩), .ok (.node ⟨1⟩), .ok (.edge ⟨0⟩), .error (.noTarget ⟨7⟩ 2),
          .ok (.edge ⟨1⟩), .ok .done], a) ∧
      a.outgoing? ⟨0⟩ = some [(⟨0⟩, 5), (⟨1⟩, 17)] ∧ a.predecessors? ⟨1⟩ = some [⟨0⟩, ⟨0⟩] ∧
      a.findEdge? ⟨0⟩ ⟨1⟩ = some (some ⟨0⟩) ∧ a.successors? ⟨9⟩ = some [] := by
  obtain ⟨replies, g, hg, -, ⟨a, ha, hstored, -⟩, -, -, -, hqueries, -⟩ :=
    adjacency_is_edge_list ([.addNode "a", .addNode "b", .addEdge ⟨0⟩ ⟨1⟩ 5, .addEdge ⟨0⟩ ⟨7⟩ 6,
      .addEdge ⟨0⟩ ⟨1⟩ 7, .modifyEdge ⟨1⟩ (· + 10)] : List (GraphRequest String Nat))
  obtain ⟨rfl, rfl⟩ := Prod.mk.inj hg
  refine ⟨a, ha, (hstored.outgoing _).trans ?_, (hstored.predecessors _).trans ?_,
    (hstored.findEdge _ _).trans ?_, (hstored.successors _).trans ?_⟩
  · rfl
  · rfl
  · decide +kernel
  · have hnone : 2 ≤ (⟨9⟩ : NodeId).index := by decide
    exact congrArg some (hqueries.stranger hnone).2.1

end FlowText
