import FlowText.Proofs.BuiltMap
import FlowText.Proofs.ReadGraph

/-!
# What exits make of a graph

One exit adds a target, one entry adds its targets in order, and all entries make the graph that is
read (`Entry.graphOf_of_graph`). A name that is added again changes nothing, so what is left of a
row of names are its first mentions (`foldl_append_new`); a condition that is given again replaces
the last one.
-/

namespace FlowText

/-! ### Names that are added once -/

/-- Adds a name that is not there. -/
def enlist (names : List String) (name : String) : List String :=
  if name ∈ names then names else names ++ [name]

theorem mem_enlist_self (names : List String) (name : String) : name ∈ enlist names name := by
  rw [enlist]
  split
  · assumption
  · exact List.mem_append_right _ (List.mem_singleton_self _)

/-- A name that is there at some place is not added there. -/
theorem enlist_at_of_mem {row : String → List String} {place name : String} (h : name ∈ row place)
    (a : String) : (if a = place then enlist (row a) name else row a) = row a := by
  split
  · next ha => rw [enlist, if_pos (ha ▸ h)]
  · rfl

theorem enlist_at_of_not_mem {row : String → List String} {place name : String}
    (h : name ∉ row place) (a : String) :
    (if a = place then enlist (row a) name else row a) =
      if a = place then row a ++ [name] else row a := by
  split
  · next ha => rw [enlist, if_neg (ha ▸ h)]
  · rfl

/-- **First mentions.** What is added, name by name, under keys that are not there. -/
theorem foldl_append_new {α : Type} {key : α → String} {make : String → α}
    (hkey : ∀ name, key (make name) = name) {step : List α → String → List α}
    (hstep : ∀ xs name, step xs name = if name ∈ xs.map key then xs else xs ++ [make name])
    (xs : List α) (names : List String) :
    names.foldl step xs = xs ++ (names.filter (· ∉ xs.map key)).eraseDups.map make := by
  induction names generalizing xs with
  | nil => exact (List.append_nil xs).symm
  | cons name names ih =>
    rw [List.foldl_cons, ih, hstep]
    by_cases h : name ∈ xs.map key
    · rw [if_pos h, List.filter_cons_of_neg (by simpa using h)]
    · -- later mentions of the name are dropped on both sides
      have hfilter : (names.filter (· ∉ xs.map key)).filter (fun b => !b == name) =
          names.filter (· ∉ (xs ++ [make name]).map key) := by
        rw [List.filter_filter]
        refine List.filter_congr fun b _ => ?_
        rw [List.map_append, List.map_singleton, hkey, Bool.eq_iff_iff]
        simp [and_comm]
      rw [if_neg h, List.filter_cons_of_pos (by simpa using h), List.eraseDups_cons, hfilter,
        List.map_cons, List.append_assoc]
      rfl

theorem foldl_enlist (names more : List String) :
    more.foldl enlist names = names ++ (more.filter (· ∉ names)).eraseDups := by
  have hstep : ∀ xs name, enlist xs name = if name ∈ xs.map id then xs else xs ++ [id name] := by
    intro xs name
    rw [List.map_id]
    rfl
  have h := foldl_append_new (fun _ => rfl) hstep names more
  rwa [List.map_id, List.map_id] at h

theorem foldl_enlist_nil (names : List String) : names.foldl enlist [] = names.eraseDups := by
  rw [foldl_enlist, List.nil_append, List.filter_eq_self.2 (by simp)]

theorem foldl_touch (nodes : List Node) (names : List String) :
    names.foldl touch nodes =
      nodes ++ (names.filter (· ∉ nodes.map Node.addr)).eraseDups.map (Node.mk · none none) := by
  have hstep : ∀ xs name, touch xs name =
      if name ∈ xs.map Node.addr then xs else xs ++ [Node.mk name none none] := by
    intro xs name
    by_cases h : name ∈ xs.map Node.addr
    · rw [touch_of_mem h, if_pos h]
    · rw [touch_of_not_mem h, if_neg h]
  exact foldl_append_new (fun _ => rfl) hstep nodes names

/-! ### One edge -/

namespace Cfg

/-- **An edge.** The target comes last among the successors of the source, and the source last among
the predecessors of the target, unless they are there. -/
theorem neighbours_addEdge (g : Cfg) (s t : String) (cond : Option Cond) :
    (∀ a, (g.addEdge s t cond).2.succ a = if a = s then enlist (g.succ a) t else g.succ a) ∧
      ∀ b, (g.addEdge s t cond).2.pred b = if b = t then enlist (g.pred b) s else g.pred b := by
  cases he : g.edgeId? s t with
  | none =>
    have ht : t ∉ g.succ s := edgeId?_eq_none_iff.1 he
    have hs : s ∉ g.pred t := fun h => ht (mem_pred_iff.1 h)
    obtain ⟨-, -, hsucc, hpred⟩ := addEdge_of_edgeId?_eq_none he cond
    exact ⟨fun a => (hsucc a).trans (enlist_at_of_not_mem ht a).symm,
      fun b => (hpred b).trans (enlist_at_of_not_mem hs b).symm⟩
  | some e =>
    have ht : t ∈ g.succ s := mem_succ_of_edgeId? he
    have hs : s ∈ g.pred t := mem_pred_iff.2 ht
    obtain ⟨-, -, hsucc, hpred⟩ := addEdge_of_edgeId? he cond
    exact ⟨fun a => (hsucc a).trans (enlist_at_of_mem ht a).symm,
      fun b => (hpred b).trans (enlist_at_of_mem hs b).symm⟩

theorem edgeCond?_addEdge_of_ne (g : Cfg) {s t a b : String} (h : (s, t) ≠ (a, b))
    (cond : Option Cond) : (g.addEdge s t cond).2.edgeCond? a b = g.edgeCond? a b := by
  have hmem : s ∈ ((g.toAddrMap.mention s).mention t).addrs :=
    AddrMap.mem_addrs_mention (.inl (AddrMap.mem_addrs_mention (.inr rfl)))
  rw [← edgeCond?_toAddrMap, toAddrMap_addEdge, AddrMap.edgeCond?_eq,
    AddrMap.exit?_modify_putExit hmem, if_neg h, AddrMap.exit?, AddrMap.exits_mention,
    AddrMap.exits_mention, ← AddrMap.exit?, ← AddrMap.edgeCond?_eq, edgeCond?_toAddrMap]

end Cfg

/-! ### One entry -/

/-- The last exit to a target. -/
def lastExit? (exits : List Exit) (target : String) : Option Exit :=
  exits.reverse.find? (·.2 == target)

theorem lastExit?_append (xs ys : List Exit) (target : String) :
    lastExit? (xs ++ ys) target = (lastExit? ys target).or (lastExit? xs target) := by
  rw [lastExit?, List.reverse_append, List.find?_append]
  rfl

namespace Entry

/-- Where the exits of an entry lead. -/
def targets (e : Entry) : List String := e.exits.map Prod.snd

/-- **Leads.** What changes in a graph when an entry leads on through some exits. -/
structure Leads (e : Entry) (exits : List Exit) (g h : Cfg) : Prop where
  nodes : h.nodes = (exits.map Prod.snd).foldl touch g.nodes
  chosen : h.chosen = g.chosen
  succ : ∀ a, h.succ a =
    if a = e.addr then (exits.map Prod.snd).foldl enlist (g.succ a) else g.succ a
  pred : ∀ b, h.pred b = if b ∈ exits.map Prod.snd then enlist (g.pred b) e.addr else g.pred b
  cond : ∀ b x, lastExit? exits b = some x → e.condOf x = .ok (h.edgeCond? e.addr b)
  keeps : ∀ a b, (a = e.addr → b ∉ exits.map Prod.snd) → h.edgeCond? a b = g.edgeCond? a b

variable {e : Entry} {g h k : Cfg}

theorem leads_nil (e : Entry) (g : Cfg) : e.Leads [] g g where
  nodes := rfl
  chosen := rfl
  succ _ := (ite_self _).symm
  pred _ := (if_neg List.not_mem_nil).symm
  cond _ _ h := nomatch h
  keeps _ _ _ := rfl

/-- **An exit** leads where it says. -/
theorem leads_of_connect {x : Exit} (he : e.addr ∈ g.nodes.map Node.addr)
    (hx : e.connect g x = .ok h) : e.Leads [x] g h := by
  obtain ⟨c, hc, rfl⟩ := exists_of_connect hx
  obtain ⟨hsucc, hpred⟩ := g.neighbours_addEdge e.addr x.2 c
  refine ⟨?_, Cfg.chosen_addEdge _ _ _ _, hsucc, fun b => ?_, fun b y hy => ?_,
    fun a b hab => Cfg.edgeCond?_addEdge_of_ne g (fun heq => ?_) c⟩
  · rw [Cfg.nodes_addEdge, touch_of_mem he]
    rfl
  · rw [hpred]
    simp only [List.map_cons, List.map_nil, List.mem_singleton]
  · have hmem : y ∈ [x] := List.mem_reverse.1 (List.mem_of_find?_eq_some hy)
    obtain rfl := List.mem_singleton.1 hmem
    obtain rfl : y.2 = b := by simpa using List.find?_some hy
    rw [hc, Cfg.edgeCond?_addEdge]
  · obtain ⟨rfl, rfl⟩ := Prod.mk.inj heq
    exact hab rfl (List.mem_singleton_self _)

/-- **More exits** lead on from what the first ones have left. -/
theorem Leads.append {xs ys : List Exit} (hxs : e.Leads xs g h) (hys : e.Leads ys h k) :
    e.Leads (xs ++ ys) g k := by
  refine ⟨?_, hys.chosen.trans hxs.chosen, fun a => ?_, fun b => ?_, fun b x hx => ?_,
    fun a b hab => ?_⟩
  · rw [List.map_append, List.foldl_append, ← hxs.nodes, hys.nodes]
  · rw [hys.succ, hxs.succ, List.map_append, List.foldl_append]
    by_cases ha : a = e.addr
    · rw [if_pos ha, if_pos ha, if_pos ha]
    · rw [if_neg ha, if_neg ha, if_neg ha]
  · rw [hys.pred, hxs.pred, List.map_append]
    by_cases hy : b ∈ ys.map Prod.snd
    · rw [if_pos hy, if_pos (List.mem_append_right _ hy)]
      by_cases hx : b ∈ xs.map Prod.snd
      · rw [if_pos hx, enlist, if_pos (mem_enlist_self _ _)]
      · rw [if_neg hx]
    · rw [if_neg hy]
      exact if_congr (by simp [hy]) rfl rfl
  · rw [lastExit?_append] at hx
    cases hy : lastExit? ys b with
    | some y =>
      rw [hy] at hx
      obtain rfl : y = x := Option.some.inj hx
      exact hys.cond b y hy
    | none =>
      -- no later exit leads there, so the condition stays
      rw [hy] at hx
      have hb : b ∉ ys.map Prod.snd := by
        intro hm
        obtain ⟨y, hym, rfl⟩ := List.mem_map.1 hm
        have := List.find?_eq_none.1 hy y (List.mem_reverse.2 hym)
        exact this (beq_self_eq_true _)
      rw [hys.keeps e.addr b fun _ => hb]
      exact hxs.cond b x hx
  · rw [List.map_append] at hab
    rw [hys.keeps a b fun ha hm => hab ha (List.mem_append_right _ hm),
      hxs.keeps a b fun ha hm => hab ha (List.mem_append_left _ hm)]

/-- What is touched stays a node. -/
theorem mem_foldl_touch {nodes : List Node} {addr : String} (h : addr ∈ nodes.map Node.addr)
    (names : List String) : addr ∈ (names.foldl touch nodes).map Node.addr := by
  rw [foldl_touch, List.map_append]
  exact List.mem_append_left _ h

/-- **Some exits**, one after the other. -/
theorem leads_of_foldlM {exits : List Exit} (he : e.addr ∈ g.nodes.map Node.addr)
    (hx : exits.foldlM e.connect g = .ok h) : e.Leads exits g h := by
  induction exits generalizing g with
  | nil =>
    cases hx
    exact leads_nil e _
  | cons x exits ih =>
    rw [List.foldlM_cons] at hx
    obtain ⟨g₁, hx₁, hmore⟩ := ok_of_bind hx
    have hfirst := leads_of_connect he hx₁
    have he₁ : e.addr ∈ g₁.nodes.map Node.addr := hfirst.nodes ▸ mem_foldl_touch he _
    exact hfirst.append (ih he₁ hmore)

/-! ### All entries -/

/-- **Joined.** What changes in a graph when all entries lead on. -/
structure Joined (entries : List Entry) (g h : Cfg) : Prop where
  nodes : h.nodes = (entries.flatMap targets).foldl touch g.nodes
  chosen : h.chosen = g.chosen
  succ : ∀ e ∈ entries, h.succ e.addr = e.targets.foldl enlist (g.succ e.addr)
  succ_keeps : ∀ a ∉ entries.map addr, h.succ a = g.succ a
  pred : ∀ b, (∀ e ∈ entries, e.addr ∉ g.pred b) →
    h.pred b = g.pred b ++ (entries.filter fun e => b ∈ e.targets).map addr
  cond : ∀ e ∈ entries, ∀ b x, lastExit? e.exits b = some x →
    e.condOf x = .ok (h.edgeCond? e.addr b)
  keeps : ∀ a ∉ entries.map addr, ∀ b, h.edgeCond? a b = g.edgeCond? a b

theorem joined_nil (g : Cfg) : Joined [] g g where
  nodes := rfl
  chosen := rfl
  succ _ h := nomatch h
  succ_keeps _ _ := rfl
  pred _ _ := (List.append_nil _).symm
  cond _ h := nomatch h
  keeps _ _ _ := rfl

/-- **One more entry** in front, at an address that no other one has. -/
theorem Leads.joined {entries : List Entry} (hnew : e.addr ∉ entries.map addr)
    (he : e.Leads e.exits g h) (hmore : Joined entries h k) : Joined (e :: entries) g k := by
  refine ⟨?_, hmore.chosen.trans he.chosen, fun f hf => ?_, fun a ha => ?_, fun b hb => ?_,
    fun f hf b x hx => ?_, fun a ha b => ?_⟩
  · rw [List.flatMap_cons, List.foldl_append, hmore.nodes, he.nodes]
    rfl
  · rcases List.mem_cons.1 hf with rfl | hf
    · rw [hmore.succ_keeps _ hnew, he.succ, if_pos rfl]
      rfl
    · have hne : f.addr ≠ e.addr := fun heq => hnew (heq ▸ List.mem_map_of_mem hf)
      rw [hmore.succ f hf, he.succ, if_neg hne]
  · rw [List.map_cons, List.mem_cons, not_or] at ha
    rw [hmore.succ_keeps a ha.2, he.succ, if_neg ha.1]
  · have hfirst : h.pred b = g.pred b ++ if b ∈ e.targets then [e.addr] else [] := by
      rw [he.pred, ← targets]
      by_cases ht : b ∈ e.targets
      · rw [if_pos ht, if_pos ht, enlist, if_neg (hb e List.mem_cons_self)]
      · rw [if_neg ht, if_neg ht, List.append_nil]
    have hothers : ∀ f ∈ entries, f.addr ∉ h.pred b := by
      intro f hf hm
      rw [hfirst] at hm
      rcases List.mem_append.1 hm with hm | hm
      · exact hb f (List.mem_cons_of_mem _ hf) hm
      · split at hm
        · exact hnew (List.mem_singleton.1 hm ▸ List.mem_map_of_mem hf)
        · exact absurd hm List.not_mem_nil
    rw [hmore.pred b hothers, hfirst, List.append_assoc, List.filter_cons]
    by_cases ht : b ∈ e.targets <;> simp [ht]
  · rcases List.mem_cons.1 hf with rfl | hf
    · rw [hmore.keeps _ hnew]
      exact he.cond b x hx
    · exact hmore.cond f hf b x hx
  · rw [List.map_cons, List.mem_cons, not_or] at ha
    rw [hmore.keeps a ha.2, he.keeps a b fun heq => absurd heq ha.1]

/-- **All entries** are joined to what their exits say. -/
theorem joined_of_foldlM {entries : List Entry} (hn : (entries.map addr).Nodup)
    (hnodes : ∀ e ∈ entries, e.addr ∈ g.nodes.map Node.addr)
    (h : entries.foldlM (fun g e => e.exits.foldlM e.connect g) g = .ok k) :
    Joined entries g k := by
  induction entries generalizing g with
  | nil =>
    cases h
    exact joined_nil _
  | cons e entries ih =>
    rw [List.foldlM_cons] at h
    obtain ⟨g₁, h₁, hmore⟩ := ok_of_bind h
    obtain ⟨hnew, hn'⟩ := List.nodup_cons.1 hn
    have hfirst := leads_of_foldlM (hnodes e List.mem_cons_self) h₁
    refine hfirst.joined hnew (ih hn' (fun f hf => ?_) hmore)
    rw [hfirst.nodes]
    exact mem_foldl_touch (hnodes f (List.mem_cons_of_mem _ hf)) _

/-- The first entry that nothing leads to, or else the first one of all. -/
def first? (entries : List Entry) (g : Cfg) : Option String :=
  ((entries.map addr).find? fun a => (g.pred a).isEmpty).or (entries.map addr).head?

/-- **Graphs of entries.** -/
structure GraphOf (entries : List Entry) (g : Cfg) : Prop where
  nodes : g.nodes = entries.map node ++
    ((entries.flatMap targets).filter (· ∉ entries.map addr)).eraseDups.map (Node.mk · none none)
  succ : ∀ e ∈ entries, g.succ e.addr = e.targets.eraseDups
  succ_nil : ∀ a ∉ entries.map addr, g.succ a = []
  pred : ∀ b, g.pred b = (entries.filter fun e => b ∈ e.targets).map addr
  cond : ∀ e ∈ entries, ∀ b x, lastExit? e.exits b = some x →
    e.condOf x = .ok (g.edgeCond? e.addr b)
  entry : g.entry? = first? entries g

variable {entries : List Entry}

/-- All entries are there before any exit is. -/
theorem joined_of_connect (hn : (entries.map addr).Nodup)
    (h : entries.foldlM (fun g e => e.exits.foldlM e.connect g) (entries.foldl addTo .empty) =
      .ok g) :
    Joined entries (entries.foldl addTo .empty) g := by
  refine joined_of_foldlM hn (fun e he => ?_) h
  have hnodes : (entries.foldl addTo .empty).nodes = entries.map node := nodes_foldl_addTo hn
  rw [hnodes, List.map_map]
  exact List.mem_map_of_mem he

theorem Joined.nodes_eq (hn : (entries.map addr).Nodup)
    (hj : Joined entries (entries.foldl addTo .empty) g) :
    g.nodes = entries.map node ++
      ((entries.flatMap targets).filter (· ∉ entries.map addr)).eraseDups.map
        (Node.mk · none none) := by
  have hnodes : (entries.foldl addTo .empty).nodes = entries.map node := nodes_foldl_addTo hn
  rw [hj.nodes, foldl_touch, hnodes, List.map_map]
  rfl

theorem Joined.mem_nodes (hn : (entries.map addr).Nodup)
    (hj : Joined entries (entries.foldl addTo .empty) g) (he : e ∈ entries) :
    e.addr ∈ g.nodes.map Node.addr := by
  rw [hj.nodes_eq hn, List.map_append]
  exact List.mem_append_left _ (List.mem_map.2 ⟨e.node, List.mem_map_of_mem he, rfl⟩)

/-- When all exits are added, what remains is to choose the entry. -/
theorem Joined.graphOf (hn : (entries.map addr).Nodup)
    (hj : Joined entries (entries.foldl addTo .empty) g) (hgraph : h.graph = g.graph)
    (hentry : h.entry? = first? entries h) : GraphOf entries h := by
  obtain ⟨hnodes, hlinks⟩ := Cfg.nodes_links_of_graph hgraph
  have hlinks₀ : (entries.foldl addTo .empty).links = [] := (links_foldl_addTo entries .empty).1
  -- there are no links before the first exit
  have hsucc₀ : ∀ a, (entries.foldl addTo .empty).succ a = [] := fun a => by
    rw [Cfg.succ_eq, hlinks₀, List.filter_nil, List.map_nil]
  have hpred₀ : ∀ b, (entries.foldl addTo .empty).pred b = [] := fun b => by
    rw [Cfg.pred_eq, hlinks₀, List.filter_nil, List.map_nil]
  have hsucc : ∀ a, h.succ a = g.succ a := fun a => by rw [Cfg.succ_eq, Cfg.succ_eq, hlinks]
  refine ⟨hnodes.trans (hj.nodes_eq hn), fun e he => ?_, fun a ha => ?_, fun b => ?_,
    fun e he b x hx => ?_, hentry⟩
  · rw [hsucc, hj.succ e he, hsucc₀, foldl_enlist_nil]
  · rw [hsucc, hj.succ_keeps a ha, hsucc₀]
  · have hfresh : ∀ e ∈ entries, e.addr ∉ (entries.foldl addTo .empty).pred b := by
      rw [hpred₀]
      exact fun _ _ => List.not_mem_nil
    rw [Cfg.pred_eq, hlinks, ← Cfg.pred_eq, hj.pred b hfresh, hpred₀, List.nil_append]
  · rw [Cfg.edgeCond?_eq, hlinks, ← Cfg.edgeCond?_eq]
    exact hj.cond e he b x hx

/-- **The graph that is read.** -/
theorem graphOf_of_graph (hn : (entries.map addr).Nodup) (h : graph entries = .ok g) :
    GraphOf entries g := by
  unfold graph at h
  dsimp only at h
  obtain ⟨g₁, h₁, h₂⟩ := ok_of_bind h
  have hj := joined_of_connect hn h₁
  split at h₂
  · next e he =>
    obtain ⟨g₂, hg₂, hgraph, hentry⟩ :=
      Cfg.exists_setEntry (hj.mem_nodes hn (List.mem_of_find?_eq_some he))
    rw [mapError_eq_ok_iff.2 hg₂] at h₂
    obtain rfl := Except.ok.inj h₂
    refine hj.graphOf hn hgraph ?_
    have hpred : ∀ b, g₂.pred b = g₁.pred b := fun b => by
      rw [Cfg.pred_eq, Cfg.pred_eq, (Cfg.nodes_links_of_graph hgraph).2]
    simp only [first?, hpred]
    rw [hentry, List.find?_map, Function.comp_def, he]
    rfl
  · next hnone =>
    obtain rfl := Except.ok.inj h₂
    refine hj.graphOf hn rfl ?_
    have hchosen : g₁.chosen = none := hj.chosen.trans (links_foldl_addTo entries .empty).2
    rw [Cfg.entry_of_chosen_eq_none hchosen, hj.nodes_eq hn, first?, List.find?_map,
      Function.comp_def, hnone, Option.map_none, Option.none_or]
    -- without entries there are no targets either
    cases entries <;> rfl

end Entry

end FlowText
