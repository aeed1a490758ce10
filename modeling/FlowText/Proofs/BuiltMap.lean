import FlowText.Expr.Read
import FlowText.Proofs.EdgeIds

/-!
# Graphs that are built, as maps

A graph that is built by a list of changes is asked what the map that is built by them holds
(`Answers`), and what the next operation gives or refuses is settled by that map (`Replies`). The
condition of an edge is the one that the changes gave it last (`lastCond`). All of this holds after
every list of changes (`graph_refines_map`).
-/

namespace FlowText

/-! ### Exits of a map -/

/-- An exit is found as it was put, and the others as they were. -/
theorem find?_putExit (target : String) (cond : Option Cond) (exits : List (String × Option Cond))
    (t : String) :
    (putExit target cond exits).find? (·.1 == t) =
      if target = t then some (target, cond) else exits.find? (·.1 == t) := by
  induction exits with
  | nil => by_cases h : target = t <;> simp [putExit, h]
  | cons exit exits ih =>
    rw [putExit]
    by_cases he : exit.1 = target
    · rw [if_pos he]
      by_cases h : target = t
      · simp [h]
      · simp [h, he]
    · rw [if_neg he]
      by_cases h : target = t
      · rw [List.find?_cons_of_neg (by simpa [← h] using he), ih, if_pos h, if_pos h]
      · simp only [List.find?_cons, ih, if_neg h]

namespace AddrMap

/-- The exit from one address to another with its condition, if there is one. -/
def exit? (m : AddrMap) (source target : String) : Option (Option Cond) :=
  ((m.exits source).find? (·.1 == target)).map Prod.snd

/-- The condition of an edge is that of its exit. -/
theorem edgeCond?_eq (m : AddrMap) (s t : String) : m.edgeCond? s t = (m.exit? s t).join := by
  rw [edgeCond?, exit?]
  cases (m.exits s).find? (·.1 == t) <;> rfl

/-- Successors are the targets of exits. -/
theorem mem_succ_iff {m : AddrMap} {s t : String} : t ∈ m.succ s ↔ (m.exit? s t).isSome := by
  rw [exit?, Option.isSome_map, List.find?_isSome, succ, List.mem_map]
  simp

/-- There is a place for each address. -/
theorem place?_isSome_iff {m : AddrMap} {addr : String} :
    (m.place? addr).isSome ↔ addr ∈ m.addrs := by
  rw [place?, List.find?_isSome, addrs, List.mem_map]
  simp

/-- Edges start at addresses of the map. -/
theorem mem_addrs_of_mem_succ {m : AddrMap} {s t : String} (h : t ∈ m.succ s) : s ∈ m.addrs := by
  by_contra hs
  have hnone : m.place? s = none := by
    rw [← Option.not_isSome_iff_eq_none, place?_isSome_iff]
    exact hs
  rw [succ, exits, hnone] at h
  cases h

/-- Changing places where they are keeps them apart. -/
theorem place?_map {m : AddrMap} {f : Place → Place} (hf : ∀ p, (f p).addr = p.addr)
    (addr : String) :
    AddrMap.place? { m with places := m.places.map f } addr = (m.place? addr).map f := by
  rw [place?, place?, List.find?_map]
  simp only [Function.comp_def, hf]

/-- A mention adds no exit. -/
theorem exits_mention (m : AddrMap) (a addr : String) :
    (m.mention a).exits addr = m.exits addr := by
  rw [mention]
  split
  · rfl
  · rw [exits, exits, place?, place?, List.find?_append]
    cases m.places.find? (·.addr == addr) with
    | some p => rfl
    | none => by_cases ha : a = addr <;> simp [ha]

/-- A mention adds its address and takes none away. -/
theorem mem_addrs_mention {m : AddrMap} {a addr : String} (h : addr ∈ m.addrs ∨ addr = a) :
    addr ∈ (m.mention a).addrs := by
  rw [mention]
  split
  · next ha =>
    rcases h with h | rfl
    · exact h
    · exact ha
  · rw [addrs, List.map_append]
    exact List.mem_append.2 (h.imp_right List.mem_singleton.2)

/-- What is done to places without a change of their exits leaves all edges. -/
theorem exits_map {m : AddrMap} {f : Place → Place} (hf : ∀ p, (f p).addr = p.addr)
    (he : ∀ p, (f p).exits = p.exits) (addr : String) :
    AddrMap.exits { m with places := m.places.map f } addr = m.exits addr := by
  rw [exits, place?_map hf, exits]
  cases m.place? addr with
  | none => rfl
  | some p => exact he p

/-- Blocks and numbers are no part of the edges. -/
theorem exits_modify (m : AddrMap) (block : Place → Option Block) (number : Place → Option Nat)
    (a addr : String) :
    (m.modify a fun p => { p with block := block p, number := number p }).exits addr =
      m.exits addr := by
  rw [modify]
  exact exits_map (fun p => by split <;> rfl) (fun p => by split <;> rfl) addr

/-- Neither is a numbering. -/
theorem exits_number (m : AddrMap) (order : List String) (addr : String) :
    (m.number order).exits addr = m.exits addr := by
  rw [number]
  exact exits_map (fun _ => by rfl) (fun _ => by rfl) addr

/-- Changing the exits of an address leaves those of all others. -/
theorem exits_modify_exits {m : AddrMap} {source : String} (h : source ∈ m.addrs)
    (f : List (String × Option Cond) → List (String × Option Cond)) (addr : String) :
    (m.modify source fun p => { p with exits := f p.exits }).exits addr =
      if source = addr then f (m.exits addr) else m.exits addr := by
  rw [exits, modify, place?_map (fun p => by split <;> rfl), exits]
  cases hp : m.place? addr with
  | none =>
    have hne : source ≠ addr := by
      rintro rfl
      rw [← place?_isSome_iff, hp] at h
      cases h
    rw [if_neg hne]
    rfl
  | some p =>
    have haddr : p.addr = addr := by simpa using List.find?_some hp
    rw [Option.map_some, haddr]
    by_cases hs : source = addr
    · rw [if_pos hs, if_pos hs.symm]
      rfl
    · rw [if_neg hs, if_neg (Ne.symm hs)]

/-- Putting an exit sets its condition, and no other one. -/
theorem exit?_modify_putExit {m : AddrMap} {source : String} (h : source ∈ m.addrs)
    (target : String) (cond : Option Cond) (s t : String) :
    (m.modify source fun p => { p with exits := putExit target cond p.exits }).exit? s t =
      if (source, target) = (s, t) then some cond else m.exit? s t := by
  rw [exit?, exits_modify_exits h]
  by_cases hs : source = s
  · rw [if_pos hs, find?_putExit]
    by_cases ht : target = t
    · simp [hs, ht]
    · simp [ht, exit?]
  · rw [if_neg hs, if_neg fun hx => hs (Prod.mk.inj hx).1, exit?]

end AddrMap

/-! ### The last condition -/

/-- What is known of the edge from one address to another after one more change. -/
def afterChange (s t : String) (last : Option (Option Cond)) : Change → Option (Option Cond)
  | .edge source target cond => if (source, target) = (s, t) then some cond else last
  | .edgeCond source target cond =>
    if (source, target) = (s, t) then last.map fun _ => cond else last
  | _ => last

/-- **Last condition.** The condition that a list of changes gave last to the edge from one address
to another, if it has added that edge. -/
def lastCond (s t : String) (changes : List Change) : Option (Option Cond) :=
  changes.foldl (afterChange s t) none

namespace AddrMap

/-- **Step.** A change does to an exit what its own request says. -/
theorem exit?_attempt (m : AddrMap) (c : Change) (s t : String) :
    ((m.attempt c).toOption.getD m).exit? s t = afterChange s t (m.exit? s t) c := by
  cases c with
  | node addr =>
    change (m.mention addr).exit? s t = m.exit? s t
    rw [exit?, exits_mention, exit?]
  | block b =>
    rw [attempt]
    split
    · rfl
    · change ((m.mention b.addr).modify b.addr fun p => { p with block := some b }).exit? s t = _
      rw [exit?, exits_modify, exits_mention]
      rfl
  | edge source target cond =>
    have hmem : source ∈ ((m.mention source).mention target).addrs :=
      mem_addrs_mention (.inl (mem_addrs_mention (.inr rfl)))
    refine (exit?_modify_putExit hmem target cond s t).trans ?_
    rw [exit?, exits_mention, exits_mention]
    rfl
  | edgeCond source target cond =>
    rw [attempt, afterChange]
    by_cases ht : target ∈ m.succ source
    · rw [if_pos ht]
      refine (exit?_modify_putExit (mem_addrs_of_mem_succ ht) target cond s t).trans ?_
      split
      · next h =>
        obtain ⟨rfl, rfl⟩ := Prod.mk.inj h
        obtain ⟨d, hd⟩ := Option.isSome_iff_exists.1 (mem_succ_iff.1 ht)
        rw [hd]
        rfl
      · rfl
    -- without the exit nothing is changed, and nothing is known
    · rw [if_neg ht]
      change m.exit? s t = _
      split
      · next h =>
        obtain ⟨rfl, rfl⟩ := Prod.mk.inj h
        have hnone : m.exit? source target = none := by
          rwa [mem_succ_iff, Option.not_isSome_iff_eq_none] at ht
        rw [hnone]
        rfl
      · rfl
  | number addr number =>
    rw [attempt]
    split
    · change (m.modify addr _).exit? s t = m.exit? s t
      rw [exit?, exits_modify]
      rfl
    · rfl
  | entry addr =>
    rw [attempt]
    split <;> rfl
  | postorder =>
    change (m.number m.postorder).exit? s t = m.exit? s t
    rw [exit?, exits_number]
    rfl

/-- **Run.** An exit has the condition that was given last. -/
theorem exit?_run (changes : List Change) (s t : String) :
    (run changes).exit? s t = lastCond s t changes := by
  have hrun : ∀ m : AddrMap,
      (changes.foldl (fun m c => (m.attempt c).toOption.getD m) m).exit? s t =
        changes.foldl (afterChange s t) (m.exit? s t) := by
    induction changes with
    | nil => exact fun _ => rfl
    | cons c changes ih =>
      intro m
      rw [List.foldl_cons, ih, exit?_attempt, List.foldl_cons]
  exact hrun {}

end AddrMap

/-! ### What is asked and what is given -/

/-- **Answers.** What a graph can be asked is what a map holds. -/
structure Answers (g : Cfg) (m : AddrMap) : Prop where
  /-- the addresses of the map are distinct -/
  addrs : m.addrs.Nodup
  nodeCount : g.nodeCount = m.addrs.length
  isEmpty : g.isEmpty = m.addrs.isEmpty
  /-- the identifier of an address is its place in the map -/
  nodeId : ∀ addr v, g.nodeId? addr = some v ↔ m.addrs[v.index]? = some addr
  /-- every address of the map has an identifier below the number of nodes -/
  nodeId_lt : ∀ addr, addr ∈ m.addrs ↔ ∃ v, g.nodeId? addr = some v ∧ v.index < g.nodeCount
  /-- every identifier below the number of nodes is that of one address -/
  nodeId_bij : ∀ v : NodeId, v.index < g.nodeCount → ∃! addr, g.nodeId? addr = some v
  /-- what is held at an address, asked by the address and by its identifier -/
  node : ∀ addr, g.node? addr = (m.place? addr).map Place.node
  nodeAt : ∀ v, g.nodeAt? v = m.places[v.index]?.map Place.node
  block : ∀ addr, g.block? addr = m.block? addr
  number : ∀ addr, g.number? addr = m.number? addr
  /-- the successors are the targets of the exits, in their order -/
  succ : ∀ addr, g.succ addr = m.succ addr
  edgeCond : ∀ s t, g.edgeCond? s t = m.edgeCond? s t
  entry : g.entry? = m.entry?
  sorted : g.sortedAddrs = sortNatural m.addrs
  sortedNodes : g.sortedNodes =
    (sortNatural m.addrs).filterMap fun addr => (m.place? addr).map Place.node
  blocks : g.blocks = m.places.filterMap Place.block
  pred : ∀ s t, s ∈ g.pred t ↔ t ∈ g.succ s
  succ_nodup : ∀ addr, (g.succ addr).Nodup
  pred_nodup : ∀ addr, (g.pred addr).Nodup
  /-- exits lead between addresses of the map -/
  mem : ∀ s t, t ∈ m.succ s → s ∈ m.addrs ∧ t ∈ m.addrs
  edgeCount : g.edgeCount = (m.addrs.map fun addr => (g.succ addr).length).sum
  /-- there is an edge from one address to another if there is an exit -/
  edgeId : ∀ s t, (g.edgeId? s t).isSome ↔ t ∈ m.succ s
  /-- at most one edge leads from one node to another -/
  edge_inj : ∀ d e p, g.graph.endpoints? d = some p → g.graph.endpoints? e = some p → d = e

/-- **Replies.** What the next operation on a graph gives, and when it is refused. -/
structure Replies (g : Cfg) (m : AddrMap) : Prop where
  /-- a change is refused if the map refuses it, for the same reason -/
  refused : ∀ c e, g.attempt c = .error e ↔ m.attempt c = .error e
  /-- and the graph is then as it was -/
  unchanged : ∀ c e, m.attempt c = .error e → g.apply c = g
  /-- a node that is mentioned has the identifier that is given -/
  node : ∀ addr, (g.ensureNode addr).2.nodeId? addr = some (g.ensureNode addr).1
  block : ∀ b v h, g.addBlock b = .ok (v, h) → h.nodeId? b.addr = some v
  block_refused : ∀ b e,
    g.addBlock b = .error e ↔ e = .duplicateBlock b.addr ∧ (m.block? b.addr).isSome
  /-- a block that is refused leaves the graph as it was -/
  block_in_place : ∀ b e, g.addBlock b = .error e → g.storeBlock b = (.error e, g)
  /-- an edge is never refused -/
  edge : ∀ s t cond, g.tryEdge s t cond = .ok ((g.addEdge s t cond).1, (g.addEdge s t cond).2.graph)
  /-- an edge that is there keeps its identifier and its place, and gets the new condition -/
  edge_again : ∀ s t cond e, g.edgeId? s t = some e →
    (g.addEdge s t cond).1 = e ∧ (g.addEdge s t cond).2.edgeCount = g.edgeCount ∧
      (∀ addr, (g.addEdge s t cond).2.succ addr = g.succ addr) ∧
      (∀ addr, (g.addEdge s t cond).2.pred addr = g.pred addr) ∧
      (g.addEdge s t cond).2.edgeCond? s t = cond
  /-- a new edge gets the next identifier, and comes last at both its ends -/
  edge_new : ∀ s t cond, g.edgeId? s t = none →
    (g.addEdge s t cond).1 = ⟨g.edgeCount⟩ ∧ (g.addEdge s t cond).2.edgeCount = g.edgeCount + 1 ∧
      (∀ addr, (g.addEdge s t cond).2.succ addr =
        if addr = s then g.succ addr ++ [t] else g.succ addr) ∧
      (∀ addr, (g.addEdge s t cond).2.pred addr =
        if addr = t then g.pred addr ++ [s] else g.pred addr) ∧
      (g.addEdge s t cond).2.edgeCond? s t = cond
  /-- the edge that was added has the identifier that is given, and all others keep theirs -/
  edge_ids : ∀ s t cond, (g.addEdge s t cond).2.edgeId? s t = some (g.addEdge s t cond).1 ∧
    ∀ a b e, g.edgeId? a b = some e → (g.addEdge s t cond).2.edgeId? a b = some e
  edgeCond_refused : ∀ s t cond e, g.setEdgeCond s t cond = .error e ↔
    e = .noEdge s t ∧ t ∉ m.succ s
  number_refused : ∀ addr k e, g.setNumber addr k = .error e ↔
    e = .unknownAddr addr ∧ addr ∉ m.addrs
  entry_refused : ∀ addr e, g.setEntry addr = .error e ↔ e = .unknownEntry addr ∧ addr ∉ m.addrs
  /-- as many nodes are numbered as can be reached from the entry -/
  postorder : g.numberPostorder.1 = m.postorder.length

namespace Cfg

/-- **Questions** to the graph are answered by its map. -/
theorem answers_toAddrMap (g : Cfg) : Answers g g.toAddrMap where
  addrs := g.addrs_toAddrMap ▸ g.addrs_nodup
  nodeCount := by
    rw [addrs_toAddrMap, List.length_map]
    rfl
  isEmpty := by
    rw [Bool.eq_iff_iff, isEmpty_iff, addrs_toAddrMap, List.isEmpty_iff, List.map_eq_nil_iff]
  nodeId addr v := by
    rw [nodeId?_eq_some_iff, addrs_toAddrMap, List.getElem?_map, Option.map_eq_some_iff]
  nodeId_lt addr := by
    rw [addrs_toAddrMap]
    constructor
    · intro h
      cases hv : g.nodeId? addr with
      | none => exact absurd h (nodeId?_eq_none_iff.1 hv)
      | some v => exact ⟨v, rfl, lt_of_nodeId? hv⟩
    · rintro ⟨v, hv, -⟩
      exact mem_addrs_of_nodeId? hv
  nodeId_bij v hv := ⟨g.addrAt v, nodeId?_addrAt hv, fun addr ha => (addrAt_of_nodeId? ha).symm⟩
  node addr := (g.node?_toAddrMap addr).symm
  nodeAt v := by rw [← List.getElem?_map, places_map_node, nodeAt?_eq]
  block addr := (g.block?_toAddrMap addr).symm
  number addr := (g.number?_toAddrMap addr).symm
  succ addr := (g.succ_toAddrMap addr).symm
  edgeCond s t := (g.edgeCond?_toAddrMap s t).symm
  entry := g.entry?_toAddrMap.symm
  sorted := by rw [sortedAddrs_eq, addrs_toAddrMap]
  sortedNodes := by
    rw [addrs_toAddrMap, ← sortedAddrs_eq, sortedAddrs, List.filterMap_map, sortedNodes]
    refine List.filterMap_congr fun v hv => ?_
    rw [Function.comp_apply, node?_toAddrMap, node?_addrAt (lt_of_mem_sortedIds hv)]
  blocks := by
    rw [toAddrMap, List.filterMap_map]
    rfl
  pred _ _ := mem_pred_iff
  succ_nodup := g.nodup_succ
  pred_nodup := g.nodup_pred
  mem s t h := by
    rw [succ_toAddrMap] at h
    obtain ⟨l, hl, rfl, rfl⟩ := Cfg.mem_succ_iff.1 h
    rw [addrs_toAddrMap]
    exact mem_links hl
  edgeCount := by rw [addrs_toAddrMap, edgeCount_eq_sum]
  edgeId s t := by
    rw [succ_toAddrMap, ← not_iff_not, ← edgeId?_eq_none_iff, Option.not_isSome_iff_eq_none]
  edge_inj _ _ _ := endpoints?_inj

/-- A change is refused as its map refuses it. -/
theorem attempt_eq_error_iff {g : Cfg} {c : Change} {e : GraphError} :
    g.attempt c = .error e ↔ g.toAddrMap.attempt c = .error e := by
  rw [← map_toAddrMap_attempt]
  refine ⟨fun h => ?_, error_of_map⟩
  rw [h]
  rfl

/-- An edge that is added has the condition that is given with it. -/
theorem edgeCond?_addEdge (g : Cfg) (s t : String) (cond : Option Cond) :
    (g.addEdge s t cond).2.edgeCond? s t = cond := by
  have hmem : s ∈ ((g.toAddrMap.mention s).mention t).addrs :=
    AddrMap.mem_addrs_mention (.inl (AddrMap.mem_addrs_mention (.inr rfl)))
  rw [← edgeCond?_toAddrMap, toAddrMap_addEdge, AddrMap.edgeCond?_eq,
    AddrMap.exit?_modify_putExit hmem, if_pos rfl, Option.join_some]

/-- **Changes** of the graph get the replies of its map. -/
theorem replies_toAddrMap (g : Cfg) : Replies g g.toAddrMap where
  refused _ _ := attempt_eq_error_iff
  unchanged c e h := by
    rw [apply_eq, attempt_eq_error_iff.2 h]
    rfl
  node := g.nodeId?_ensureNode
  block b v h hb := by
    rw [addBlock] at hb
    split at hb
    · cases hb
    · cases hb
      exact nodeId?_of_prefix (addrs_modifyNode _ _ _ ▸ List.prefix_refl _)
        (g.nodeId?_ensureNode b.addr)
  block_refused b e := by
    rw [addBlock, block?_toAddrMap]
    by_cases h : (g.block? b.addr).isSome <;> simp [h, eq_comm]
  block_in_place b e h := by rw [storeBlock_eq, h]
  edge := g.tryEdge_eq
  edge_again s t cond e h := by
    obtain ⟨hid, hcount, hsucc, hpred⟩ := addEdge_of_edgeId? h cond
    exact ⟨hid, hcount, hsucc, hpred, g.edgeCond?_addEdge s t cond⟩
  edge_new s t cond h := by
    obtain ⟨hid, hcount, hsucc, hpred⟩ := addEdge_of_edgeId?_eq_none h cond
    exact ⟨hid, hcount, hsucc, hpred, g.edgeCond?_addEdge s t cond⟩
  edge_ids := g.edgeId?_addEdge
  edgeCond_refused s t cond e := by
    have h : g.setEdgeCond s t cond = .error e ↔ _ := attempt_eq_error_iff (c := .edgeCond s t cond)
    rw [h, AddrMap.attempt]
    by_cases ht : t ∈ g.toAddrMap.succ s <;> simp [ht, eq_comm]
  number_refused addr k e := by
    rw [setNumber, addrs_toAddrMap]
    cases hv : g.nodeId? addr with
    | none => simp [nodeId?_eq_none_iff.1 hv, eq_comm]
    | some v => simp [mem_addrs_of_nodeId? hv]
  entry_refused addr e := by
    have h : g.setEntry addr = .error e ↔ _ := attempt_eq_error_iff (c := .entry addr)
    rw [h, AddrMap.attempt]
    by_cases ha : addr ∈ g.toAddrMap.addrs <;> simp [ha, eq_comm]
  postorder := by
    rw [numberPostorder_eq, ← entryOrder_map_addrAt, List.length_map]

/-- **One change** of the graph is one of its map. -/
theorem toAddrMap_apply (g : Cfg) (c : Change) :
    (g.apply c).toAddrMap = (g.toAddrMap.attempt c).toOption.getD g.toAddrMap := by
  rw [apply_eq, ← map_toAddrMap_attempt]
  cases g.attempt c <;> rfl

/-- **Run.** The graph that changes build has the map that they build. -/
theorem toAddrMap_build (changes : List Change) :
    (build changes).toAddrMap = AddrMap.run changes := by
  have hrun : ∀ g : Cfg, (changes.foldl apply g).toAddrMap =
      changes.foldl (fun m c => (m.attempt c).toOption.getD m) g.toAddrMap := by
    induction changes with
    | nil => exact fun _ => rfl
    | cons c changes ih =>
      intro g
      rw [List.foldl_cons, ih, toAddrMap_apply, List.foldl_cons]
  exact hrun empty

end Cfg

/-- **Refinement.** After any list of changes a graph is asked what the map of addresses holds after
them, the next operation gives or refuses what that map says, and the condition of every edge is the
one that it was given last. -/
theorem graph_refines_map (changes : List Change) :
    Answers (Cfg.build changes) (AddrMap.run changes) ∧
      Replies (Cfg.build changes) (AddrMap.run changes) ∧
      ∀ s t, (t ∈ (Cfg.build changes).succ s ↔ (lastCond s t changes).isSome) ∧
        (Cfg.build changes).edgeCond? s t = (lastCond s t changes).join := by
  have hmap := Cfg.toAddrMap_build changes
  have hanswers := hmap ▸ (Cfg.build changes).answers_toAddrMap
  refine ⟨hanswers, hmap ▸ (Cfg.build changes).replies_toAddrMap, fun s t => ?_⟩
  rw [hanswers.succ, hanswers.edgeCond, AddrMap.mem_succ_iff, AddrMap.edgeCond?_eq,
    AddrMap.exit?_run]
  exact ⟨Iff.rfl, rfl⟩

end FlowText
