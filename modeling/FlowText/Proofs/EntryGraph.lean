import FlowText.Proofs.EntryLines
import FlowText.Proofs.Links

/-!
# Graphs of entries

Entries become nodes (`nodes_foldl_addTo`), and their exits become links, whose conditions are
readable (`readable_of_condOf`). The exits of a view's entries become the links of the view
(`connect_entries`).
-/

namespace FlowText

namespace Entry

/-! ### Nodes -/

/-- The node of an entry. -/
def node (e : Entry) : Node where
  addr := e.addr
  block := e.insts.map (Block.mk e.addr)
  number := e.number

theorem nodes_addTo {g : Cfg} {e : Entry} (h : e.addr ∉ g.nodes.map Node.addr) :
    (addTo g e).nodes = g.nodes ++ [e.node] := by
  have hany : ¬ g.nodes.any (·.addr == e.addr) = true := by
    rw [List.any_eq_true]
    rintro ⟨n, hn, he⟩
    exact h (List.mem_map.2 ⟨n, hn, by simpa using he⟩)
  change (Cfg.modifyNode (g.ensureNode e.addr).2 (g.ensureNode e.addr).1 _).nodes = _
  rw [Cfg.nodes_modifyNode (g.nodeId?_ensureNode e.addr), Cfg.nodes_ensureNode, touch, if_neg hany,
    List.map_append, List.map_singleton, if_pos rfl]
  congr 1
  refine (List.map_congr_left fun n hn => if_neg ?_).trans (List.map_id _)
  exact fun he => h (he ▸ List.mem_map_of_mem hn)

theorem links_addTo (g : Cfg) (e : Entry) : (addTo g e).links = g.links :=
  (Cfg.links_modifyNode _ _ _).trans (Cfg.links_ensureNode g e.addr)

theorem chosen_addTo (g : Cfg) (e : Entry) : (addTo g e).chosen = g.chosen :=
  Cfg.chosen_ensureNode g e.addr

theorem nodes_foldl_addTo {entries : List Entry} {g : Cfg}
    (h : (g.nodes.map Node.addr ++ entries.map Entry.addr).Nodup) :
    (entries.foldl addTo g).nodes = g.nodes ++ entries.map node := by
  induction entries generalizing g with
  | nil => exact (List.append_nil _).symm
  | cons e entries ih =>
    have hnew : e.addr ∉ g.nodes.map Node.addr := fun hm =>
      (List.nodup_append.1 h).2.2 _ hm e.addr List.mem_cons_self rfl
    have hnodes := nodes_addTo hnew
    rw [List.foldl_cons, ih, hnodes, List.append_assoc]
    · rfl
    · rw [hnodes, List.map_append, List.append_assoc]
      exact h

theorem links_foldl_addTo (entries : List Entry) (g : Cfg) :
    (entries.foldl addTo g).links = g.links ∧ (entries.foldl addTo g).chosen = g.chosen := by
  induction entries generalizing g with
  | nil => exact ⟨rfl, rfl⟩
  | cons e entries ih =>
    rw [List.foldl_cons, (ih _).1, (ih _).2]
    exact ⟨links_addTo g e, chosen_addTo g e⟩

/-- When all exits are added, what remains is to choose the entry. -/
theorem graph_of_connect {entries : List Entry} {g : Cfg}
    (h : entries.foldlM (fun g e => e.exits.foldlM e.connect g) (entries.foldl addTo .empty) =
      .ok g) :
    graph entries =
      match entries.find? fun e => (g.pred e.addr).isEmpty with
      | some e => (g.setEntry e.addr).mapError .graph
      | none => .ok g := by
  change entries.foldlM _ (entries.foldl addTo .empty) >>= _ = _
  rw [h]
  rfl

/-! ### Links -/

/-- The condition of an exit. -/
def condOf (e : Entry) (x : Exit) : Except Error (Option Cond) :=
  x.1.mapM (onLine e.exitsLine Cond.ofText)

theorem connect_of_ok {e : Entry} {x : Exit} {c : Option Cond} (h : e.condOf x = .ok c)
    (g : Cfg) : e.connect g x = .ok (g.addEdge e.addr x.2 c).2 := by
  change (e.condOf x >>= _) = _
  rw [h]
  rfl

theorem exists_of_connect {e : Entry} {x : Exit} {g h : Cfg} (hx : e.connect g x = .ok h) :
    ∃ c, e.condOf x = .ok c ∧ h = (g.addEdge e.addr x.2 c).2 := by
  obtain ⟨c, hc, hg⟩ := ok_of_bind hx
  exact ⟨c, hc, (Except.ok.inj hg).symm⟩

theorem readable_of_condOf {e : Entry} {x : Exit} {c : Option Cond} (h : e.condOf x = .ok c) :
    ∀ d ∈ c, d.Readable := by
  obtain ⟨t, target⟩ := x
  cases t with
  | none =>
    cases h
    exact fun d hd => absurd hd (Option.not_mem_none d)
  | some t =>
    unfold condOf onLine at h
    rw [Option.mapM_some] at h
    cases ht : Cond.ofText t with
    | error err =>
      rw [ht] at h
      cases h
    | ok d =>
      rw [ht] at h
      cases h
      rintro d' ⟨⟩
      exact Cond.readable_of_ofText ht

theorem condOf_text {c : Option Cond} (h : ∀ d ∈ c, d.Readable) (e : Entry) (target : String) :
    e.condOf (c.map Cond.text, target) = .ok c := by
  cases c with
  | none => rfl
  | some d =>
    change Option.mapM (onLine e.exitsLine Cond.ofText) (some d.text) = _
    rw [Option.mapM_some, onLine, (h d rfl).ofText]
    rfl

end Entry

namespace View

/-- The link of an address to one of its successors. -/
def linkTo (v : View) (a b : String) : Link := ⟨a, b, v.edgeCond? a b⟩

/-- The links of an address. -/
def linksAt (v : View) (a : String) : List Link := (v.succ a).map (v.linkTo a)

/-- The exit of an address to one of its successors. -/
def exitTo (v : View) (a b : String) : Exit := ((v.edgeCond? a b).map Cond.text, b)

end View

/-- The exits of one entry, which lead to nodes that are there already. -/
theorem connect_exits {v : View} {e : Entry} {bs : List String}
    (hcond : ∀ b ∈ bs, ∀ c ∈ v.edgeCond? e.addr b, c.Readable) {g : Cfg}
    (ha : e.addr ∈ g.nodes.map Node.addr) (hbs : ∀ b ∈ bs, b ∈ g.nodes.map Node.addr)
    (hn : (g.links.map Link.ends ++ bs.map fun b => (e.addr, b)).Nodup) :
    ∃ h, (bs.map (v.exitTo e.addr)).foldlM e.connect g = .ok h ∧ h.nodes = g.nodes ∧
      h.chosen = g.chosen ∧ h.links = g.links ++ bs.map (v.linkTo e.addr) := by
  induction bs generalizing g with
  | nil => exact ⟨g, rfl, rfl, rfl, (List.append_nil _).symm⟩
  | cons b bs ih =>
    -- the link is new, so it comes last, and both of its nodes are there
    have hnew : (v.linkTo e.addr b).ends ∉ g.links.map Link.ends := fun hm =>
      (List.nodup_append.1 hn).2.2 _ hm (e.addr, b) List.mem_cons_self rfl
    let g' := (g.addEdge e.addr b (v.edgeCond? e.addr b)).2
    have hnodes : g'.nodes = g.nodes := by
      rw [Cfg.nodes_addEdge, touch_of_mem ha, touch_of_mem (hbs b List.mem_cons_self)]
    have hlinks : g'.links = g.links ++ [v.linkTo e.addr b] :=
      (Cfg.links_addEdge g _ _ _).trans (putLink_of_not_mem hnew)
    obtain ⟨h, hh, hhn, hhc, hhl⟩ := ih (g := g') (fun c hc => hcond c (List.mem_cons_of_mem _ hc))
      (hnodes ▸ ha) (fun c hc => hnodes ▸ hbs c (List.mem_cons_of_mem _ hc)) (by
        rw [hlinks, List.map_append, List.append_assoc]
        exact hn)
    refine ⟨h, ?_, hhn.trans hnodes, hhc.trans (Cfg.chosen_addEdge g _ _ _), ?_⟩
    · have hc := Entry.condOf_text (hcond b List.mem_cons_self) e b
      rw [List.map_cons, List.foldlM_cons, View.exitTo, Entry.connect_of_ok hc]
      exact hh
    · rw [hhl, hlinks, List.append_assoc]
      rfl

/-- The exits of all entries. -/
theorem connect_entries {v : View} {addrs : List String} {entries : List Entry}
    (hes : EntriesOf v addrs entries)
    (hcond : ∀ a ∈ addrs, ∀ b ∈ v.succ a, ∀ c ∈ v.edgeCond? a b, c.Readable) {g : Cfg}
    (ha : ∀ a ∈ addrs, a ∈ g.nodes.map Node.addr)
    (hb : ∀ a ∈ addrs, ∀ b ∈ v.succ a, b ∈ g.nodes.map Node.addr)
    (hn : ((g.links ++ addrs.flatMap v.linksAt).map Link.ends).Nodup) :
    ∃ h, entries.foldlM (fun g e => e.exits.foldlM e.connect g) g = .ok h ∧ h.nodes = g.nodes ∧
      h.chosen = g.chosen ∧ h.links = g.links ++ addrs.flatMap v.linksAt := by
  induction hes generalizing g with
  | nil => exact ⟨g, rfl, rfl, rfl, (List.append_nil _).symm⟩
  | @cons a e addrs entries he hes ih =>
    obtain rfl := he.addr
    have hexits : e.exits = (v.succ e.addr).map (v.exitTo e.addr) := he.exits
    -- the ends of the first entry's links are set apart from those of the rest
    rw [List.flatMap_cons, ← List.append_assoc, List.map_append, List.nodup_append] at hn
    obtain ⟨g', hg', hnodes, hchosen, hlinks⟩ := connect_exits (hcond e.addr List.mem_cons_self)
      (ha e.addr List.mem_cons_self) (hb e.addr List.mem_cons_self) (by
        have := hn.1
        rw [List.map_append, View.linksAt, List.map_map] at this
        exact this)
    obtain ⟨h, hh, hhn, hhc, hhl⟩ := ih (fun a h => hcond a (List.mem_cons_of_mem _ h)) (g := g')
      (fun a h => hnodes ▸ ha a (List.mem_cons_of_mem _ h))
      (fun a h b hab => hnodes ▸ hb a (List.mem_cons_of_mem _ h) b hab) (by
        rw [hlinks, List.map_append, List.nodup_append]
        exact hn)
    refine ⟨h, ?_, hhn.trans hnodes, hhc.trans hchosen, ?_⟩
    · rw [List.foldlM_cons, hexits, hg']
      exact hh
    · rw [hhl, hlinks, List.flatMap_cons, List.append_assoc]
      rfl

end FlowText
