import FlowText.Proofs.EntryGraph

/-!
# Graphs that mirror a view

The entries of a view become a graph that mirrors the view (`graph_of_entriesOf`): it answers as the
view does, its blocks respell those of the view, and its dump has the same lines (`Mirrors.dump`).
So whoever reads the lines of a dump gets a mirror (`View.Legible.read_back`).
-/

namespace FlowText

/-- **Respelling** of a block: the same address, and instructions that respell those of the other
block one by one. -/
structure Block.Respells (c b : Block) : Prop where
  addr : c.addr = b.addr
  insts : List.Forall₂ Inst.Respells c.insts b.insts

/-- A block at the same address respells another one when its instructions do. -/
theorem respells_of_insts {a : String} {insts : Option (List Inst)} {b : Option Block}
    (h : Option.Rel (List.Forall₂ Inst.Respells) insts (b.map Block.insts))
    (ha : ∀ c ∈ b, c.addr = a) : Option.Rel Block.Respells (insts.map (Block.mk a)) b := by
  cases b with
  | none =>
    cases h with
    | none => exact .none
  | some b =>
    cases h with
    | some hjs => exact .some ⟨(ha b rfl).symm, hjs⟩

/-- **Mirrors.** The graph answers as the view does, and its blocks respell those of the view. -/
structure Mirrors (v : View) (h : Cfg) : Prop where
  addrs : h.sortedAddrs = v.addrs
  block : ∀ a ∈ v.addrs, Option.Rel Block.Respells (h.block? a) (v.block? a)
  number : ∀ a ∈ v.addrs, h.number? a = v.number? a
  succ : ∀ a ∈ v.addrs, h.succ a = v.succ a
  pred : ∀ a ∈ v.addrs, (h.pred a).Perm (v.pred a)
  cond : ∀ a ∈ v.addrs, ∀ b ∈ v.succ a, h.edgeCond? a b = v.edgeCond? a b

theorem exists_entryOf {v : View} {addrs : List String} {entries : List Entry}
    (h : EntriesOf v addrs entries) {a : String} (ha : a ∈ addrs) :
    ∃ e ∈ entries, EntryOf v a e := by
  induction h with
  | nil => cases ha
  | cons he _ ih =>
    rcases List.mem_cons.1 ha with rfl | ha
    · exact ⟨_, List.mem_cons_self, he⟩
    · obtain ⟨e, hm, he'⟩ := ih ha
      exact ⟨e, List.mem_cons_of_mem _ hm, he'⟩

theorem flatMap_of_nodup {α β : Type} {f : α → List β} {l : List α} (hn : l.Nodup) {a : α}
    (ha : a ∈ l) (h : ∀ b ∈ l, b ≠ a → f b = []) : l.flatMap f = f a := by
  induction l with
  | nil => cases ha
  | cons b l ih =>
    obtain ⟨hb, hl⟩ := List.nodup_cons.1 hn
    rw [List.flatMap_cons]
    rcases List.mem_cons.1 ha with rfl | ha
    · have hnil : l.flatMap f = [] := List.flatMap_eq_nil_iff.2 fun c hc =>
        h c (List.mem_cons_of_mem _ hc) fun he => hb (he ▸ hc)
      rw [hnil, List.append_nil]
    · rw [h b List.mem_cons_self fun he => hb (he ▸ ha), List.nil_append]
      exact ih hl ha fun c hc => h c (List.mem_cons_of_mem _ hc)

theorem flatMap_ite_singleton {α : Type} (p : α → Prop) [DecidablePred p] (l : List α) :
    (l.flatMap fun a => if p a then [a] else []) = l.filter fun a => p a := by
  induction l with
  | nil => rfl
  | cons a l ih =>
    rw [List.flatMap_cons, ih, List.filter_cons]
    by_cases h : p a <;> simp [h]

namespace View

/-- The links of all addresses. -/
def links (v : View) : List Link := v.addrs.flatMap v.linksAt

theorem filter_source_linksAt (v : View) (a b : String) :
    (v.linksAt a).filter (·.source == b) = if a = b then v.linksAt a else [] := by
  by_cases hab : a = b
  · rw [if_pos hab, List.filter_eq_self]
    intro l hl
    obtain ⟨c, -, rfl⟩ := List.mem_map.1 hl
    exact beq_iff_eq.2 hab
  · rw [if_neg hab, List.filter_eq_nil_iff]
    intro l hl
    obtain ⟨c, -, rfl⟩ := List.mem_map.1 hl
    simpa [linkTo] using hab

theorem filter_target_linksAt {v : View} {a : String} (hn : (v.succ a).Nodup) (b : String) :
    ((v.linksAt a).filter (·.target == b)).map Link.source = if b ∈ v.succ a then [a] else [] := by
  have hsource : ((v.linksAt a).filter (·.target == b)).map Link.source =
      ((v.succ a).filter (· == b)).map fun _ => a := by
    rw [linksAt, List.filter_map, List.map_map]
    rfl
  rw [hsource, List.filter_beq, List.map_replicate, List.Nodup.count hn]
  split <;> rfl

theorem nodup_ends_links {v : View} (hc : v.Coherent) : (v.links.map Link.ends).Nodup := by
  have hends : ∀ a, (v.linksAt a).map Link.ends = (v.succ a).map fun b => (a, b) := by
    intro a
    rw [linksAt, List.map_map]
    rfl
  rw [links, List.map_flatMap, List.nodup_flatMap]
  refine ⟨fun a ha => ?_, hc.nodup.imp fun {a b} hab p hp hp' => hab ?_⟩
  · rw [hends]
    exact (hc.succ_nodup a ha).map fun b c h => congrArg Prod.snd h
  · change p ∈ (v.linksAt a).map Link.ends at hp
    change p ∈ (v.linksAt b).map Link.ends at hp'
    rw [hends] at hp hp'
    obtain ⟨c, -, rfl⟩ := List.mem_map.1 hp
    obtain ⟨d, -, hd⟩ := List.mem_map.1 hp'
    exact (congrArg Prod.fst hd).symm

end View

/-- A graph with the nodes of a view's entries and the links of the view mirrors the view. -/
theorem mirrors_of_nodes {v : View} (hc : v.Coherent) {entries : List Entry}
    (hes : EntriesOf v v.addrs entries) {h : Cfg} (hn : h.nodes = entries.map Entry.node)
    (hl : h.links = v.links) : Mirrors v h := by
  have haddrs : h.nodes.map Node.addr = v.addrs := by
    rw [hn, List.map_map, ← map_addr_of_entriesOf hes]
    rfl
  have hnode : ∀ a ∈ v.addrs, ∃ e, EntryOf v a e ∧ h.node? a = some e.node := by
    intro a ha
    obtain ⟨e, hm, he⟩ := exists_entryOf hes ha
    exact ⟨e, he, Cfg.node?_eq_some_iff.2 ⟨hn ▸ List.mem_map_of_mem hm, he.addr⟩⟩
  refine ⟨?_, fun a ha => ?_, fun a ha => ?_, fun a ha => ?_, fun a ha => ?_, fun a ha b hb => ?_⟩
  · rw [Cfg.sortedAddrs_eq, haddrs]
    exact sortByName_of_pairwise hc.sorted
  · obtain ⟨e, he, hna⟩ := hnode a ha
    have hblock : h.block? a = e.insts.map (Block.mk a) := by
      rw [Cfg.block?, hna, ← he.addr]
      rfl
    rw [hblock]
    exact respells_of_insts he.insts fun b hb => hc.block_addr a ha b hb
  · obtain ⟨e, he, hna⟩ := hnode a ha
    rw [Cfg.number?, hna, ← he.number]
    rfl
  -- only the links that were added at this address leave it, in their order
  · have hothers : ∀ b ∈ v.addrs, b ≠ a → (v.linksAt b).filter (·.source == a) = [] := by
      intro b _ hne
      rw [View.filter_source_linksAt, if_neg hne]
    rw [Cfg.succ_eq, hl, View.links, List.filter_flatMap, flatMap_of_nodup hc.nodup ha hothers,
      View.filter_source_linksAt, if_pos rfl, View.linksAt, List.map_map]
    exact List.map_id _
  -- the predecessors come in the order of the addresses, which need not be the one of the view
  · refine List.Perm.trans ?_ (hc.pred_perm a ha).symm
    have hsources : h.pred a = v.addrs.flatMap fun b => if a ∈ v.succ b then [b] else [] := by
      rw [Cfg.pred_eq, hl, View.links, List.filter_flatMap, List.map_flatMap]
      exact List.flatMap_congr fun b hb => View.filter_target_linksAt (hc.succ_nodup b hb) a
    rw [hsources, flatMap_ite_singleton]
  · have hmem : v.linkTo a b ∈ h.links := by
      rw [hl]
      exact List.mem_flatMap.2 ⟨a, ha, List.mem_map_of_mem hb⟩
    exact Cfg.edgeCond?_of_mem hmem

/-- **The graph of a view's entries** mirrors the view. Its entry is the first address without
predecessors, or else the first of all. -/
theorem graph_of_entriesOf {v : View} (hc : v.Coherent)
    (hcond : ∀ a ∈ v.addrs, ∀ b ∈ v.succ a, ∀ c ∈ v.edgeCond? a b, c.Readable)
    {entries : List Entry} (hes : EntriesOf v v.addrs entries) :
    ∃ h, Entry.graph entries = .ok h ∧ Mirrors v h ∧
      h.entry? = (v.addrs.find? fun a => (v.pred a).isEmpty).or v.addrs.head? := by
  have haddrs := map_addr_of_entriesOf hes
  have hnodup : (Cfg.empty.nodes.map Node.addr ++ entries.map Entry.addr).Nodup := by
    rw [haddrs]
    exact hc.nodup
  have hnodes : (entries.foldl Entry.addTo .empty).nodes = entries.map Entry.node :=
    Entry.nodes_foldl_addTo hnodup
  obtain ⟨hlinks, hchosen⟩ := Entry.links_foldl_addTo entries .empty
  have hmem : ∀ a ∈ v.addrs, a ∈ (entries.foldl Entry.addTo .empty).nodes.map Node.addr := by
    intro a ha
    rw [hnodes, List.map_map]
    exact haddrs.symm ▸ ha
  obtain ⟨g, hg, hgn, hgc, hgl⟩ := connect_entries hes hcond hmem
    (fun a ha b hb => hmem b (hc.succ_mem a ha b hb)) (by
      rw [hlinks]
      exact View.nodup_ends_links hc)
  have hgn' := hgn.trans hnodes
  have hgl' : g.links = v.links := hgl.trans (congrArg (· ++ v.links) hlinks)
  have hmirror := mirrors_of_nodes hc hes hgn' hgl'
  -- the entry is looked for among the entries, which stand in the order of the addresses
  have hfind : (entries.find? fun e => (g.pred e.addr).isEmpty).map Entry.addr =
      v.addrs.find? fun a => (v.pred a).isEmpty := by
    have hpred : ∀ a ∈ v.addrs, (g.pred a).isEmpty = (v.pred a).isEmpty := fun a ha =>
      (hmirror.pred a ha).isEmpty_eq
    rw [← Cfg.find?_congr_of_mem hpred, ← haddrs, List.find?_map]
    rfl
  rw [Entry.graph_of_connect hg, ← hfind]
  cases hf : entries.find? fun e => (g.pred e.addr).isEmpty with
  | none =>
    refine ⟨g, rfl, hmirror, ?_⟩
    rw [Cfg.entry_of_chosen_eq_none (hgc.trans hchosen), hgn', List.map_map, ← haddrs]
    rfl
  | some e =>
    have he : e.addr ∈ g.nodes.map Node.addr := by
      rw [hgn', List.map_map]
      exact List.mem_map.2 ⟨e, List.mem_of_find?_eq_some hf, rfl⟩
    obtain ⟨h, hh, hhg, hhe⟩ := Cfg.exists_setEntry he
    obtain ⟨hhn, hhl⟩ := Cfg.nodes_links_of_graph hhg
    refine ⟨h, ?_, mirrors_of_nodes hc hes (hhn.trans hgn') (hhl.trans hgl'), hhe⟩
    exact mapError_eq_ok_iff.2 hh

/-! ### The dump of a mirror -/

theorem Inst.Respells.lines {j i : Inst} (h : j.Respells i) : j.lines = i.lines := by
  have ho := h.origins
  have hline := h.op.line
  unfold Inst.lines
  cases hi : i.origins with
  | nil =>
    rw [hi] at ho
    rw [List.forall₂_nil_right_iff.1 ho, hline]
  | cons p ps =>
    rw [hi] at ho
    obtain ⟨q, qs, hq, -, hj⟩ := List.forall₂_cons_right_iff.1 ho
    rw [hj]
    dsimp only
    rw [hq.line, hline]

theorem Operation.Respells.exists_form {q p : Operation} (h : q.Respells p)
    (hp : ∃ form, p.form = .ok form) : ∃ form, q.form = .ok form := by
  obtain ⟨form, hf⟩ := hp
  obtain ⟨form', hf', -⟩ := ok_of_map (h.text.trans (by rw [hf]; rfl))
  exact ⟨form', hf'⟩

theorem Inst.Respells.writable {j i : Inst} (h : j.Respells i) (hi : i.Writable) : j.Writable := by
  refine ⟨h.op.exists_form hi.form, ?_⟩
  have ho := h.origins
  rcases hi.origins with hnil | ⟨p, hp, hf⟩
  · rw [hnil] at ho
    exact .inl (List.forall₂_nil_right_iff.1 ho)
  · rw [hp] at ho
    obtain ⟨q, qs, hq, hqs, hj⟩ := List.forall₂_cons_right_iff.1 ho
    rw [List.forall₂_nil_right_iff.1 hqs] at hj
    exact .inr ⟨q, hj, hq.exists_form hf⟩

theorem Block.Respells.lines {c b : Block} (h : c.Respells b) : c.lines = b.lines := by
  have hall : ∀ {js is : List Inst}, List.Forall₂ Inst.Respells js is →
      js.flatMap Inst.lines = is.flatMap Inst.lines := by
    intro js is h
    induction h with
    | nil => rfl
    | cons hji _ ih => rw [List.flatMap_cons, List.flatMap_cons, hji.lines, ih]
  exact hall h.insts

theorem Block.Respells.writable {c b : Block} (h : c.Respells b)
    (hb : ∀ i ∈ b.insts, i.Writable) : ∀ j ∈ c.insts, j.Writable := by
  have hall : ∀ {js is : List Inst}, List.Forall₂ Inst.Respells js is →
      (∀ i ∈ is, i.Writable) → ∀ j ∈ js, j.Writable := by
    intro js is h his j hj
    induction h with
    | nil => cases hj
    | cons hji _ ih =>
      rcases List.mem_cons.1 hj with rfl | hj
      · exact hji.writable (his _ List.mem_cons_self)
      · exact ih (fun i hi => his i (List.mem_cons_of_mem _ hi)) hj
  exact hall h.insts hb

/-- The lines of a block depend on its spelling only. -/
theorem View.bodyLines_eq {w v : View} {a : String}
    (h : Option.Rel Block.Respells (w.block? a) (v.block? a)) : w.bodyLines a = v.bodyLines a := by
  rw [bodyLines, bodyLines]
  generalize w.block? a = c at h ⊢
  generalize v.block? a = b at h ⊢
  cases h with
  | none => rfl
  | some hcb => exact hcb.lines

/-- Sorting forgets an order. -/
theorem mergeSort_eq_of_perm {l m : List String} (h : l.Perm m) :
    (l.mergeSort fun a b => decide (a ≤ b)) = m.mergeSort fun a b => decide (a ≤ b) := by
  have hsorted : ∀ l : List String,
      (l.mergeSort fun a b => decide (a ≤ b)).Pairwise fun a b => decide (a ≤ b) = true :=
    List.pairwise_mergeSort
      (fun a b c hab hbc => decide_eq_true
        (String.le_trans (of_decide_eq_true hab) (of_decide_eq_true hbc)))
      (fun a b => by simpa using String.le_total a b)
  refine List.Perm.eq_of_pairwise ?_ (hsorted l) (hsorted m)
    ((List.mergeSort_perm l _).trans (h.trans (List.mergeSort_perm m _).symm))
  exact fun a b _ _ hab hba =>
    String.le_antisymm (of_decide_eq_true hab) (of_decide_eq_true hba)

namespace Mirrors

variable {v : View} {h : Cfg}

/-- A block of a mirror respells a block of the view. -/
theorem exists_block (hm : Mirrors v h) {a : String} (ha : a ∈ v.addrs) {c : Block}
    (hc : h.block? a = some c) : ∃ b, v.block? a = some b ∧ c.Respells b := by
  have hb := hm.block a ha
  rw [hc] at hb
  generalize v.block? a = ob at hb ⊢
  cases hb with
  | some hcb => exact ⟨_, rfl, hcb⟩

theorem entryLines (hm : Mirrors v h) {a : String} (ha : a ∈ v.addrs) :
    h.view.entryLines a = v.entryLines a := by
  have hpred : h.view.predText a = v.predText a := by
    have hsort := mergeSort_eq_of_perm (hm.pred a ha)
    rw [View.predText, View.predText, ← hsort]
    rfl
  have hnumber : h.view.numberLines a = v.numberLines a := by
    have hn : h.view.number? a = v.number? a := hm.number a ha
    rw [View.numberLines, View.numberLines, hn]
  have hbody : h.view.bodyLines a = v.bodyLines a := View.bodyLines_eq (hm.block a ha)
  have hexits : h.view.exits a = v.exits a := by
    change (h.succ a).map (fun b => ((h.edgeCond? a b).map Cond.text, b)) = _
    rw [hm.succ a ha]
    exact List.map_congr_left fun b hb => by rw [hm.cond a ha b hb]
  rw [View.entryLines, View.entryLines, hpred, hnumber, hbody, View.exitsText,
    View.exitsText, hexits]

/-- A mirror has the lines of the view. -/
theorem lines (hm : Mirrors v h) : h.view.lines = v.lines := by
  have haddrs : h.view.addrs = v.addrs := hm.addrs
  have hentry := fun a ha => hm.entryLines (a := a) ha
  unfold View.lines
  rw [haddrs]
  cases hv : v.addrs with
  | nil => rfl
  | cons first more =>
    rw [hv] at hentry
    dsimp only
    rw [hentry first List.mem_cons_self]
    refine congrArg (v.entryLines first ++ ·) (List.flatMap_congr fun a ha => ?_)
    rw [hentry a (List.mem_cons_of_mem _ ha)]

/-- **The dump of a mirror** is the dump of the view. -/
theorem dump (hm : Mirrors v h) (hl : v.Legible) :
    h.view.dump canonicalRenderer = .ok (unlines v.lines) := by
  rw [← hm.lines]
  refine View.dump_eq fun a ha c hc => ?_
  have ha' : a ∈ v.addrs := hm.addrs ▸ ha
  obtain ⟨b, hb, hcb⟩ := hm.exists_block ha' hc
  exact hcb.writable fun i hi => ((hl.block a ha' b hb).each i hi).writable

end Mirrors

/-! ### Reading a dump -/

/-- **A dump reads back.** Whoever reads the lines of an unambiguous view gets a mirror of it. -/
theorem View.Legible.read_back {v : View} (hl : v.Legible) (hc : v.Coherent) (hu : v.Unambiguous)
    {text : String} (ht : FlowText.lines text.toList = v.lines.map String.toList) :
    ∃ h, (readDump text).result.1 = .ok h ∧ Mirrors v h ∧
      h.entry? = (v.addrs.find? fun a => (v.pred a).isEmpty).or v.addrs.head? := by
  obtain ⟨entries, hes, hread⟩ := hl.readLines hu hc.nodup
  obtain ⟨h, hh, hm, he⟩ := graph_of_entriesOf hc hl.cond hes
  refine ⟨h, ?_, hm, he⟩
  rw [result_readDump, ht, hread]
  exact hh

end FlowText
