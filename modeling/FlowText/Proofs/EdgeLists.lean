import FlowText.Proofs.Links

/-!
# Graphs as edge lists

An edge list is what nodes carry, and edges one below the other, with nothing else to keep in step.
A graph answers every request as its edge list does (`Digraph.edgeList_on`), and so a row of them,
whatever was refused on the way. Identifiers are given out in order (`Digraph.newIds_answers`),
edges keep their ends (`Digraph.endpoints?_after`), and every query is told by the edges and their
places alone (`Digraph.answersByEdges`).
-/

namespace FlowText

variable {ν ε : Type}

/-! ### Requests -/

/-- What a graph is asked for: to grow, or to change what it carries. -/
inductive GraphRequest (ν ε : Type) where
  | addNode (data : ν)
  | addEdge (source target : NodeId) (data : ε)
  | modifyNode (v : NodeId) (f : ν → ν)
  | mapNodes (f : ν → ν)
  | modifyEdge (e : EdgeId) (f : ε → ε)

/-- What is answered to a request that is not refused. -/
inductive GraphReply where
  | node (v : NodeId)
  | edge (e : EdgeId)
  | done
  deriving DecidableEq, Repr

/-- The node that is new by the answer. -/
def newNode? : Except GraphError GraphReply → Option NodeId
  | .ok (.node v) => some v
  | _ => none

/-- The edge that is new by the answer. -/
def newEdge? : Except GraphError GraphReply → Option EdgeId
  | .ok (.edge e) => some e
  | _ => none

section Answers

variable {σ τ ρ α β : Type}

/-- **A row of requests.** The answers, and what there is at the end. -/
def answers (on : σ → ρ → α × σ) (s : σ) : List ρ → List α × σ
  | [] => ([], s)
  | r :: rs => ((on s r).1 :: (answers on (on s r).2 rs).1, (answers on (on s r).2 rs).2)

/-- What answers alike on every request answers alike on a row of them. -/
theorem answers_of_view {on : σ → ρ → α × σ} {on' : τ → ρ → α × τ} {view : σ → τ}
    (h : ∀ s r, on' (view s) r = ((on s r).1, view (on s r).2)) (s : σ) (rs : List ρ) :
    answers on' (view s) rs = ((answers on s rs).1, view (answers on s rs).2) := by
  induction rs generalizing s with
  | nil => rfl
  | cons r rs ih => rw [answers, answers, h, ih]

/-- What every request keeps, a row of them keeps. -/
theorem answers_keeps {on : σ → ρ → α × σ} {R : σ → σ → Prop} (hrefl : ∀ s, R s s)
    (htrans : ∀ s t u, R s t → R t u → R s u) (h : ∀ s r, R s (on s r).2) (s : σ) (rs : List ρ) :
    R s (answers on s rs).2 := by
  induction rs generalizing s with
  | nil => exact hrefl s
  | cons r rs ih => exact htrans _ _ _ (h s r) (ih _)

/-- **Numbers in order.** If each request counts up by what it answers, a row of them gives out the
numbers from the first count to the last. -/
theorem answers_numbered {on : σ → ρ → α × σ} {count : σ → Nat} {new? : α → Option β} {mk : Nat → β}
    (h : ∀ s r, new? (on s r).1 = none ∧ count (on s r).2 = count s ∨
      new? (on s r).1 = some (mk (count s)) ∧ count (on s r).2 = count s + 1)
    (s : σ) (rs : List ρ) :
    ∃ k, count (answers on s rs).2 = count s + k ∧
      (answers on s rs).1.filterMap new? = (List.range' (count s) k).map mk := by
  induction rs generalizing s with
  | nil => exact ⟨0, rfl, rfl⟩
  | cons r rs ih =>
    obtain ⟨k, hk, hnew⟩ := ih (on s r).2
    rw [answers, List.filterMap_cons]
    rcases h s r with ⟨hr, hcount⟩ | ⟨hr, hcount⟩
    · rw [hcount] at hk hnew
      exact ⟨k, hk, by rw [hr]; exact hnew⟩
    · rw [hcount] at hk hnew
      refine ⟨k + 1, by rw [hk]; omega, ?_⟩
      rw [hr, List.range'_succ, List.map_cons]
      exact congrArg (mk (count s) :: ·) hnew

end Answers

/-! ### The edge list -/

/-- What a change does not touch is the same everywhere. -/
theorem map_modify_of_eq {α β : Type} {f : α → α} {g : α → β} (h : ∀ a, g (f a) = g a) (l : List α)
    (i : Nat) : (l.modify i f).map g = l.map g := by
  refine List.ext_getElem? fun j => ?_
  rw [List.getElem?_map, List.getElem?_map, List.getElem?_modify]
  cases l[j]? with
  | none => rfl
  | some a =>
    by_cases hij : i = j
    · simp [hij, h]
    · simp [hij]

/-- **Edge list.** What nodes carry, and edges, both in the order of addition. -/
structure EdgeList (ν ε : Type) where
  nodes : List ν := []
  edges : List (Edge ε) := []

namespace EdgeList

/-- Answers a request. Nodes and edges are numbered by how many there are. -/
def on (l : EdgeList ν ε) : GraphRequest ν ε → Except GraphError GraphReply × EdgeList ν ε
  | .addNode data => (.ok (.node ⟨l.nodes.length⟩), { l with nodes := l.nodes ++ [data] })
  | .addEdge source target data =>
    if l.nodes.length ≤ source.index then (.error (.noSource source l.nodes.length), l)
    else if l.nodes.length ≤ target.index then (.error (.noTarget target l.nodes.length), l)
    else (.ok (.edge ⟨l.edges.length⟩), { l with edges := l.edges ++ [⟨source, target, data⟩] })
  | .modifyNode v f => (.ok .done, { l with nodes := l.nodes.modify v.index f })
  | .mapNodes f => (.ok .done, { l with nodes := l.nodes.map f })
  | .modifyEdge e f =>
    (.ok .done, { l with edges := l.edges.modify e.index fun x => { x with data := f x.data } })

/-- **The edges at a node**, on one side of it, in the order of their identifiers. -/
def incident (l : EdgeList ν ε) (side : Edge ε → NodeId) (v : NodeId) : List (EdgeId × Edge ε) :=
  (l.edges.zipIdx.map fun (x, i) => (⟨i⟩, x)).filter fun (_, x) => side x == v

/-- An edge is incident if it is in the list with that node on its side. -/
theorem mem_incident {l : EdgeList ν ε} {side : Edge ε → NodeId} {v : NodeId}
    {e : EdgeId} {x : Edge ε} :
    (e, x) ∈ l.incident side v ↔ l.edges[e.index]? = some x ∧ side x = v := by
  rw [incident, List.mem_filter, List.mem_map, beq_iff_eq]
  refine and_congr_left fun _ => ⟨?_,
    fun h => ⟨(x, e.index), List.mk_mem_zipIdx_iff_getElem?.2 h, rfl⟩⟩
  rintro ⟨⟨y, i⟩, hmem, hp⟩
  obtain ⟨rfl, rfl⟩ := Prod.mk.inj hp
  exact List.mk_mem_zipIdx_iff_getElem?.1 hmem

/-- Incident edges stand in the order in which they were added. -/
theorem pairwise_incident (l : EdgeList ν ε) (side : Edge ε → NodeId) (v : NodeId) :
    (l.incident side v).Pairwise fun p q => p.1.index < q.1.index := by
  refine List.Pairwise.filter _ (List.pairwise_map.2
    (List.pairwise_iff_getElem.2 fun i j hi hj hij => ?_))
  rw [List.getElem_zipIdx, List.getElem_zipIdx]
  simpa using hij

/-- The edges alone. -/
theorem map_incident (l : EdgeList ν ε) (side : Edge ε → NodeId) (v : NodeId) {α : Type}
    (f : Edge ε → α) :
    (l.incident side v).map (fun p => f p.2) = (l.edges.filter (side · == v)).map f := by
  have hsnd : (l.edges.zipIdx.map fun (x, i) => ((⟨i⟩ : EdgeId), x)).map Prod.snd = l.edges := by
    rw [List.map_map]
    exact List.zipIdx_map_fst 0 l.edges
  conv_rhs => rw [← hsnd, List.filter_map, List.map_map]
  rfl

/-- **Identifiers by side.** The places of a node among the nodes on one side of the edges. -/
def placesOf (sides : List NodeId) (v : NodeId) : List EdgeId :=
  (sides.zipIdx.filter (·.1 == v)).map fun p => ⟨p.2⟩

/-- They are known by their places in the list. -/
theorem map_fst_incident (l : EdgeList ν ε) (side : Edge ε → NodeId) (v : NodeId) :
    (l.incident side v).map Prod.fst = placesOf (l.edges.map side) v := by
  rw [incident, placesOf, List.zipIdx_map, List.filter_map, List.filter_map,
    List.map_map, List.map_map]
  rfl

/-- An edge is added behind the others, or refused. -/
theorem on_addEdge_cases (l : EdgeList ν ε) (source target : NodeId) (data : ε) :
    (∃ e, l.on (.addEdge source target data) = (.error e, l)) ∨
      l.on (.addEdge source target data) =
        (.ok (.edge ⟨l.edges.length⟩),
          { l with edges := l.edges ++ [⟨source, target, data⟩] }) := by
  rw [on]
  split
  · exact .inl ⟨_, rfl⟩
  split
  · exact .inl ⟨_, rfl⟩
  · exact .inr rfl

/-- Ends are never changed, and stay where they are. -/
theorem ends_prefix_on (l : EdgeList ν ε) (r : GraphRequest ν ε) :
    l.edges.map Edge.ends <+: (l.on r).2.edges.map Edge.ends := by
  cases r with
  | addEdge source target data =>
    rcases l.on_addEdge_cases source target data with ⟨e, he⟩ | he
    · rw [he]
    · rw [he, List.map_append]
      exact List.prefix_append _ _
  | modifyEdge e f =>
    have hends (x : Edge ε) : Edge.ends { x with data := f x.data } = x.ends := rfl
    exact (map_modify_of_eq hends l.edges e.index).symm ▸ List.prefix_rfl
  | _ => exact List.prefix_rfl

/-- A request adds the next node, or none. -/
theorem newNode?_on (l : EdgeList ν ε) (r : GraphRequest ν ε) :
    newNode? (l.on r).1 = none ∧ (l.on r).2.nodes.length = l.nodes.length ∨
      newNode? (l.on r).1 = some ⟨l.nodes.length⟩ ∧
      (l.on r).2.nodes.length = l.nodes.length + 1 := by
  cases r with
  | addNode data => exact .inr ⟨rfl, List.length_append⟩
  | addEdge source target data =>
    rcases l.on_addEdge_cases source target data with ⟨e, he⟩ | he
    · exact .inl (he ▸ ⟨rfl, rfl⟩)
    · exact .inl (he ▸ ⟨rfl, rfl⟩)
  | modifyNode v f => exact .inl ⟨rfl, List.length_modify ..⟩
  | mapNodes f => exact .inl ⟨rfl, List.length_map _⟩
  | modifyEdge e f => exact .inl ⟨rfl, rfl⟩

/-- A request adds the next edge, or none. -/
theorem newEdge?_on (l : EdgeList ν ε) (r : GraphRequest ν ε) :
    newEdge? (l.on r).1 = none ∧ (l.on r).2.edges.length = l.edges.length ∨
      newEdge? (l.on r).1 = some ⟨l.edges.length⟩ ∧
      (l.on r).2.edges.length = l.edges.length + 1 := by
  cases r with
  | addEdge source target data =>
    rcases l.on_addEdge_cases source target data with ⟨e, he⟩ | he
    · exact .inl (he ▸ ⟨rfl, rfl⟩)
    · exact .inr (he ▸ ⟨rfl, List.length_append⟩)
  | modifyEdge e f => exact .inl ⟨rfl, List.length_modify ..⟩
  | _ => exact .inl ⟨rfl, rfl⟩

end EdgeList

namespace Digraph

/-! ### A graph and its edge list -/

/-- Answers a request. A graph that refuses one is left as it is. -/
def on (g : Digraph ν ε) : GraphRequest ν ε → Except GraphError GraphReply × Digraph ν ε
  | .addNode data => (.ok (.node (g.addNode data).1), (g.addNode data).2)
  | .addEdge source target data =>
    match g.addEdge source target data with
    | .ok (e, g') => (.ok (.edge e), g')
    | .error e => (.error e, g)
  | .modifyNode v f => (.ok .done, g.modifyNode v f)
  | .mapNodes f => (.ok .done, g.mapNodes f)
  | .modifyEdge e f => (.ok .done, g.modifyEdge e f)

/-- The edge list of a graph. -/
def edgeList (g : Digraph ν ε) : EdgeList ν ε := ⟨g.nodes.toList, g.edges.toList⟩

/-- **A graph answers as its edge list does.** -/
theorem edgeList_on (g : Digraph ν ε) (r : GraphRequest ν ε) :
    g.edgeList.on r = ((g.on r).1, (g.on r).2.edgeList) := by
  cases r with
  | addNode data => simp [EdgeList.on, on, addNode, edgeList]
  | addEdge source target data =>
    by_cases hs : source.index < g.nodes.size
    · by_cases ht : target.index < g.nodes.size
      · simp [EdgeList.on, on, addEdge, connect, edgeList, hs, ht, Nat.not_le.2 hs, Nat.not_le.2 ht]
      · simp [EdgeList.on, on, addEdge, edgeList, nodeCount, hs, ht, Nat.not_le.2 hs,
          Nat.not_lt.1 ht]
    · simp [EdgeList.on, on, addEdge, edgeList, nodeCount, hs, Nat.not_lt.1 hs]
  | modifyNode v f => simp [EdgeList.on, on, modifyNode, edgeList]
  | mapNodes f => simp [EdgeList.on, on, mapNodes, edgeList]
  | modifyEdge e f => simp [EdgeList.on, on, modifyEdge, edgeList]

/-- The graph that is left after a row of requests. -/
def after (g : Digraph ν ε) (rs : List (GraphRequest ν ε)) : Digraph ν ε := (answers on g rs).2

theorem endpoints?_eq (g : Digraph ν ε) (e : EdgeId) :
    g.endpoints? e = (g.edgeList.edges.map Edge.ends)[e.index]? := by
  rw [endpoints?, List.getElem?_map, edgeList, Array.getElem?_toList]

/-- **Ends are kept**, whatever is asked for. -/
theorem endpoints?_after {g : Digraph ν ε} {e : EdgeId} {p : NodeId × NodeId}
    (h : g.endpoints? e = some p) (rs : List (GraphRequest ν ε)) :
    (g.after rs).endpoints? e = some p := by
  have hprefix : g.edgeList.edges.map Edge.ends <+: (g.after rs).edgeList.edges.map Edge.ends := by
    refine answers_keeps (R := fun g h : Digraph ν ε =>
      g.edgeList.edges.map Edge.ends <+: h.edgeList.edges.map Edge.ends)
      (fun _ => List.prefix_rfl) (fun _ _ _ => List.IsPrefix.trans) (fun g r => ?_) g rs
    have hstep := g.edgeList.ends_prefix_on r
    rwa [edgeList_on] at hstep
  rw [endpoints?_eq] at h ⊢
  obtain ⟨hlt, -⟩ := List.getElem?_eq_some_iff.1 h
  rw [List.prefix_iff_getElem?.1 hprefix e.index hlt]
  rwa [List.getElem?_eq_getElem hlt] at h

/-! ### Queries -/

/-- Successors are the targets of the edges that start at a node. -/
theorem successors_eq (g : Digraph ν ε) (v : NodeId) :
    g.successors v = (g.edgeList.incident Edge.source v).map fun p => p.2.target :=
  (g.edgeList.map_incident Edge.source v Edge.target).symm

/-- Predecessors are the sources of the edges that end there. -/
theorem predecessors_eq (g : Digraph ν ε) (v : NodeId) :
    g.predecessors v = (g.edgeList.incident Edge.target v).map fun p => p.2.source :=
  (g.edgeList.map_incident Edge.target v Edge.source).symm

/-- The edges that leave a node, with what they carry. -/
theorem outgoing_eq (g : Digraph ν ε) (v : NodeId) :
    g.outgoing v = (g.edgeList.incident Edge.source v).map fun p => (p.1, p.2.data) := by
  rw [outgoing, EdgeList.incident, List.filter_map, List.map_map]
  rfl

/-- The first edge between two nodes is found. -/
theorem findEdge?_eq (g : Digraph ν ε) (s t : NodeId) :
    g.findEdge? s t = (g.edgeList.edges.findIdx? fun x => x.ends == (s, t)).map EdgeId.mk := by
  rw [findEdge?, edgeList, ← List.findIdx?_toArray, Array.toArray_toList]

/-- **The edge that is found** is the first one between the nodes. -/
theorem findEdge?_eq_some_iff {g : Digraph ν ε} {s t : NodeId} {e : EdgeId} :
    g.findEdge? s t = some e ↔ g.endpoints? e = some (s, t) ∧
      ∀ d, g.endpoints? d = some (s, t) → e.index ≤ d.index := by
  have hends (i : Nat) : g.endpoints? ⟨i⟩ = some (s, t) ↔
      ∃ h : i < g.edgeList.edges.length, (g.edgeList.edges[i].ends == (s, t)) = true := by
    rw [endpoints?_eq, List.getElem?_eq_some_iff]
    simp
  rw [findEdge?_eq, Option.map_eq_some_iff]
  constructor
  · rintro ⟨i, hi, rfl⟩
    obtain ⟨hlt, hp, hfirst⟩ := List.findIdx?_eq_some_iff_getElem.1 hi
    refine ⟨(hends i).2 ⟨hlt, hp⟩, fun d hd => Nat.le_of_not_lt fun hdi => ?_⟩
    obtain ⟨_, hq⟩ := (hends d.index).1 hd
    exact hfirst d.index hdi hq
  · rintro ⟨he, hfirst⟩
    obtain ⟨hlt, hp⟩ := (hends e.index).1 he
    refine ⟨e.index, List.findIdx?_eq_some_iff_getElem.2 ⟨hlt, hp, fun j hj hq => ?_⟩, rfl⟩
    exact Nat.not_le_of_lt hj (hfirst ⟨j⟩ ((hends j).2 ⟨hj.trans hlt, hq⟩))

/-- None is found if there is none. -/
theorem findEdge?_eq_none_iff {g : Digraph ν ε} {s t : NodeId} :
    g.findEdge? s t = none ↔ ∀ e, g.endpoints? e ≠ some (s, t) := by
  rw [findEdge?_eq, Option.map_eq_none_iff, List.findIdx?_eq_none_iff]
  constructor
  · intro h e he
    rw [endpoints?_eq] at he
    obtain ⟨x, hx, hends⟩ := List.mem_map.1 (List.mem_of_getElem? he)
    simpa [hends] using h x hx
  · intro h x hx
    obtain ⟨i, hi⟩ := List.getElem?_of_mem hx
    by_contra hp
    refine h ⟨i⟩ ?_
    rw [endpoints?_eq, List.getElem?_map, hi]
    simpa using hp

/-- No edge is at a node that is none. -/
theorem incident_eq_nil {g : Digraph ν ε} {side : Edge ε → NodeId}
    (hside : ∀ x ∈ g.edges, (side x).index < g.nodeCount) {v : NodeId}
    (hv : g.nodeCount ≤ v.index) : g.edgeList.incident side v = [] := by
  refine List.eq_nil_iff_forall_not_mem.2 fun ⟨e, x⟩ hmem => ?_
  obtain ⟨hx, rfl⟩ := EdgeList.mem_incident.1 hmem
  exact Nat.not_le_of_lt (hside x (Array.mem_def.2 (List.mem_of_getElem? hx))) hv

/-- An edge leads from a node to a node. -/
theorem lt_of_endpoints? {g : Digraph ν ε} {e : EdgeId} {s t : NodeId}
    (h : g.endpoints? e = some (s, t)) : s.index < g.nodeCount ∧ t.index < g.nodeCount := by
  obtain ⟨x, hx, hends⟩ := Option.map_eq_some_iff.1 h
  obtain ⟨rfl, rfl⟩ := Prod.mk.inj hends
  have hmem := Array.mem_of_getElem? hx
  exact ⟨g.source_lt x hmem, g.target_lt x hmem⟩

/-- **Answers by edges.** Every query of a graph is told by the ends of its edges, what they carry,
and their places. -/
structure AnswersByEdges (g : Digraph ν ε) : Prop where
  /-- edges are told in the order of their identifiers -/
  ascending (side : Edge ε → NodeId) (v : NodeId) :
    (g.edgeList.incident side v).Pairwise fun p q => p.1.index < q.1.index
  /-- and they are those at the node, with what they carry now -/
  mem_incident {side : Edge ε → NodeId} {v : NodeId} {e : EdgeId} {x : Edge ε} :
    (e, x) ∈ g.edgeList.incident side v ↔
      g.endpoints? e = some x.ends ∧ g.edge? e = some x.data ∧ side x = v
  successors (v : NodeId) :
    g.successors v = (g.edgeList.incident Edge.source v).map fun p => p.2.target
  predecessors (v : NodeId) :
    g.predecessors v = (g.edgeList.incident Edge.target v).map fun p => p.2.source
  outgoing (v : NodeId) :
    g.outgoing v = (g.edgeList.incident Edge.source v).map fun p => (p.1, p.2.data)
  findEdge_eq_some {s t : NodeId} {e : EdgeId} : g.findEdge? s t = some e ↔
    g.endpoints? e = some (s, t) ∧ ∀ d, g.endpoints? d = some (s, t) → e.index ≤ d.index
  findEdge_eq_none {s t : NodeId} : g.findEdge? s t = none ↔ ∀ e, g.endpoints? e ≠ some (s, t)
  /-- there is nothing at what is no node -/
  stranger {v : NodeId} (hv : g.nodeCount ≤ v.index) : g.node? v = none ∧ g.successors v = [] ∧
    g.predecessors v = [] ∧ g.outgoing v = [] ∧ ∀ w, g.findEdge? v w = none ∧ g.findEdge? w v = none

/-- **Every question** is answered by the list of edges. -/
theorem answersByEdges (g : Digraph ν ε) : g.AnswersByEdges where
  ascending := g.edgeList.pairwise_incident
  mem_incident := by
    intro side v e x
    rw [EdgeList.mem_incident, edgeList, Array.getElem?_toList, ← and_assoc, endpoints?, edge?]
    refine and_congr_left fun _ => ?_
    cases g.edges[e.index]? with
    | none => simp
    | some y =>
      obtain ⟨s, t, data⟩ := x
      obtain ⟨s', t', data'⟩ := y
      simp [Edge.ends, and_assoc]
  successors := g.successors_eq
  predecessors := g.predecessors_eq
  outgoing := g.outgoing_eq
  findEdge_eq_some := findEdge?_eq_some_iff
  findEdge_eq_none := findEdge?_eq_none_iff
  stranger := by
    intro v hv
    refine ⟨Array.getElem?_eq_none hv, ?_, ?_, ?_, fun w => ⟨?_, ?_⟩⟩
    · rw [successors_eq, incident_eq_nil g.source_lt hv, List.map_nil]
    · rw [predecessors_eq, incident_eq_nil g.target_lt hv, List.map_nil]
    · rw [outgoing_eq, incident_eq_nil g.source_lt hv, List.map_nil]
    · exact findEdge?_eq_none_iff.2 fun e he => Nat.not_lt_of_le hv (lt_of_endpoints? he).1
    · exact findEdge?_eq_none_iff.2 fun e he => Nat.not_lt_of_le hv (lt_of_endpoints? he).2

/-! ### New nodes and edges -/

/-- **Identifiers** are given out in order, and those of edges, too. -/
theorem newIds_answers (g : Digraph ν ε) (rs : List (GraphRequest ν ε)) :
    (∃ k, (g.after rs).nodeCount = g.nodeCount + k ∧
      (answers on g rs).1.filterMap newNode? = (List.range' g.nodeCount k).map NodeId.mk) ∧
    ∃ k, (g.after rs).edgeCount = g.edgeCount + k ∧
      (answers on g rs).1.filterMap newEdge? = (List.range' g.edgeCount k).map EdgeId.mk := by
  refine ⟨answers_numbered (fun g r => ?_) g rs, answers_numbered (fun g r => ?_) g rs⟩
  · have h := g.edgeList.newNode?_on r
    rwa [edgeList_on] at h
  · have h := g.edgeList.newEdge?_on r
    rwa [edgeList_on] at h

/-- **An edge between nodes** is the last one, and is there. -/
theorem on_addEdge {g : Digraph ν ε} {s t : NodeId} (hs : s.index < g.nodeCount)
    (ht : t.index < g.nodeCount)
    (data : ε) : ∃ g', g.on (.addEdge s t data) = (.ok (.edge ⟨g.edgeCount⟩), g') ∧
      g'.endpoints? ⟨g.edgeCount⟩ = some (s, t) ∧ g'.edge? ⟨g.edgeCount⟩ = some data := by
  change s.index < g.nodes.size at hs
  change t.index < g.nodes.size at ht
  refine ⟨(g.connect s t data hs ht).2, ?_, ?_, ?_⟩
  · rw [on, addEdge, dif_pos hs, dif_pos ht]
    rfl
  · simp [endpoints?, connect, edgeCount, Edge.ends]
  · simp [edge?, connect, edgeCount]

/-- **An edge to or from anything else** is refused, and nothing is changed. -/
theorem on_addEdge_refused {g : Digraph ν ε} {s t : NodeId}
    (h : ¬ (s.index < g.nodeCount ∧ t.index < g.nodeCount)) (data : ε) :
    ∃ e, g.on (.addEdge s t data) = (.error e, g) := by
  by_cases hs : s.index < g.nodes.size
  · have ht : ¬ t.index < g.nodes.size := fun ht => h ⟨hs, ht⟩
    exact ⟨.noTarget t g.nodeCount, by rw [on, addEdge, dif_pos hs, dif_neg ht]⟩
  · exact ⟨.noSource s g.nodeCount, by rw [on, addEdge, dif_neg hs]⟩

end Digraph

end FlowText
