import FlowText.Proofs.DumpLines
import FlowText.Proofs.EntryGraph
import FlowText.Proofs.ReadEntries

/-!
# What is read from any text

Every graph that is read from a text is coherent and legible (`isRead_of_readDump`): it can be
dumped, and its dump says all of it as far as the labels tell. An address that is no label is one
that is only led to, so nothing but exits is read of it.
-/

namespace FlowText

variable {Q : Char → Prop}

/-! ### Exits become links -/

/-- **Gathered.** The graph holds the nodes of the entries, and others that its links lead to. -/
structure Gathered (Q : Char → Prop) (entries : List Entry) (g : Cfg) : Prop where
  entry : ∀ e ∈ entries, e.addr ∈ g.nodes.map Node.addr
  node : ∀ n ∈ g.nodes, (∃ e ∈ entries, n = e.node) ∨
    n = { addr := n.addr } ∧ ∃ l ∈ g.links, l.target = n.addr
  cond : ∀ l ∈ g.links, ∀ c ∈ l.cond, c.Readable
  target : ∀ l ∈ g.links, ∀ c ∈ l.target.toList, Q c

theorem gathered_foldl_addTo {entries : List Entry} (hn : (entries.map Entry.addr).Nodup) :
    Gathered Q entries (entries.foldl Entry.addTo .empty) := by
  have hnodes : (entries.foldl Entry.addTo .empty).nodes = entries.map Entry.node :=
    Entry.nodes_foldl_addTo hn
  have hlinks : (entries.foldl Entry.addTo .empty).links = [] :=
    (Entry.links_foldl_addTo entries .empty).1
  refine ⟨fun e he => ?_, fun n hm => ?_, ?_, ?_⟩
  · rw [hnodes, List.map_map]
    exact List.mem_map.2 ⟨e, he, rfl⟩
  · rw [hnodes] at hm
    obtain ⟨e, he, rfl⟩ := List.mem_map.1 hm
    exact .inl ⟨e, he, rfl⟩
  · rw [hlinks]
    exact nofun
  · rw [hlinks]
    exact nofun

/-- **An exit.** -/
theorem Gathered.connect {entries : List Entry} {g h : Cfg} (hg : Gathered Q entries g) {e : Entry}
    (he : e ∈ entries) {x : Exit} (hx : ∀ c ∈ x.2.toList, Q c) (hh : e.connect g x = .ok h) :
    Gathered Q entries h := by
  obtain ⟨c, hc, rfl⟩ := Entry.exists_of_connect hh
  have hnodes : (g.addEdge e.addr x.2 c).2.nodes = touch g.nodes x.2 := by
    rw [Cfg.nodes_addEdge, touch_of_mem (hg.entry e he)]
  have hlinks := Cfg.links_addEdge g e.addr x.2 c
  refine ⟨fun f hf => ?_, fun n hn => ?_, fun l hl => ?_, fun l hl => ?_⟩
  · rw [hnodes]
    exact (Cfg.addrs_touch g.nodes x.2).subset (hg.entry f hf)
  · rw [hnodes] at hn
    rw [hlinks]
    -- a node that was there is still led to, and a new one is led to by this exit
    rcases mem_touch hn with hn | rfl
    · refine (hg.node n hn).imp_right fun ⟨hfresh, l, hl, hln⟩ => ⟨hfresh, ?_⟩
      obtain ⟨k, hk, hkl⟩ := exists_ends_putLink g.links ⟨e.addr, x.2, c⟩ (.inl hl)
      exact ⟨k, hk, (congrArg Prod.snd hkl).trans hln⟩
    · obtain ⟨k, hk, hkl⟩ := exists_ends_putLink g.links ⟨e.addr, x.2, c⟩ (.inr rfl)
      exact .inr ⟨rfl, k, hk, congrArg Prod.snd hkl⟩
  · rw [hlinks] at hl
    rcases mem_putLink hl with hl | rfl
    · exact hg.cond l hl
    · exact Entry.readable_of_condOf hc
  · rw [hlinks] at hl
    rcases mem_putLink hl with hl | rfl
    · exact hg.target l hl
    · exact hx

theorem foldlM_invariant {α β ε : Type} {f : β → α → Except ε β} {P : β → Prop} {l : List α}
    (hstep : ∀ a ∈ l, ∀ b b', P b → f b a = .ok b' → P b') {b b' : β} (hb : P b)
    (h : l.foldlM f b = .ok b') : P b' := by
  induction l generalizing b with
  | nil =>
    cases h
    exact hb
  | cons a l ih =>
    rw [List.foldlM_cons] at h
    obtain ⟨b₁, h₁, h₂⟩ := ok_of_bind h
    exact ih (fun c hc => hstep c (List.mem_cons_of_mem _ hc))
      (hstep a List.mem_cons_self b b₁ hb h₁) h₂

/-- **The graph of entries** is gathered from them. -/
theorem gathered_of_graph {entries : List Entry} (hs : ∀ e ∈ entries, e.Sound Q)
    (hn : (entries.map Entry.addr).Nodup) {g : Cfg} (h : Entry.graph entries = .ok g) :
    Gathered Q entries g := by
  unfold Entry.graph at h
  dsimp only at h
  obtain ⟨g₁, h₁, h₂⟩ := ok_of_bind h
  have hg₁ : Gathered Q entries g₁ := by
    refine foldlM_invariant (P := Gathered Q entries) (fun e he g g' hg hg' => ?_)
      (gathered_foldl_addTo hn) h₁
    exact foldlM_invariant (P := Gathered Q entries)
      (fun x hx k k' hk hk' => hk.connect he ((hs e he).exits x hx) hk') hg hg'
  split at h₂
  · next e he =>
    have hmem : e.addr ∈ g₁.nodes.map Node.addr := hg₁.entry e (List.mem_of_find?_eq_some he)
    obtain ⟨g₂, hg₂, hgraph, -⟩ := Cfg.exists_setEntry hmem
    obtain ⟨hnodes, hlinks⟩ := Cfg.nodes_links_of_graph hgraph
    rw [mapError_eq_ok_iff.2 hg₂] at h₂
    obtain rfl := Except.ok.inj h₂
    refine ⟨?_, ?_, ?_, ?_⟩
    · rw [hnodes]
      exact hg₁.entry
    · rw [hnodes, hlinks]
      exact hg₁.node
    · rw [hlinks]
      exact hg₁.cond
    · rw [hlinks]
      exact hg₁.target
  · obtain rfl := Except.ok.inj h₂
    exact hg₁

/-! ### Whole texts -/

/-- **Read graphs.** What is known of a graph that was read. -/
structure Cfg.IsRead (Q : Char → Prop) (g : Cfg) : Prop where
  coherent : g.view.Coherent
  legible : g.view.Legible
  listed : ∀ a ∈ g.sortedAddrs, ∀ b ∈ g.block? a, Listed Q b.insts
  label : ∀ a ∈ g.sortedAddrs,
    IsLabel a ∨ (g.number? a = none ∧ g.block? a = none) ∧ ∃ s, a ∈ g.succ s

namespace Gathered

variable {entries : List Entry} {g : Cfg}

/-- An address is one of an entry, or it is only led to. -/
theorem node_cases (hg : Gathered Q entries g) {a : String} (ha : a ∈ g.sortedAddrs) :
    (∃ e ∈ entries, g.node? a = some e.node ∧ e.addr = a) ∨
      g.node? a = some { addr := a } ∧ ∃ l ∈ g.links, l.target = a := by
  obtain ⟨n, hn, rfl⟩ := List.mem_map.1 (Cfg.mem_sortedAddrs.1 ha)
  have hna : g.node? n.addr = some n := Cfg.node?_eq_some_iff.2 ⟨hn, rfl⟩
  rw [hna]
  rcases hg.node n hn with ⟨e, he, rfl⟩ | ⟨hfresh, hl⟩
  · exact .inl ⟨e, he, rfl, rfl⟩
  · exact .inr ⟨congrArg some hfresh, hl⟩

theorem listed (hg : Gathered Q entries g) (hs : ∀ e ∈ entries, e.Sound Q) {a : String}
    (ha : a ∈ g.sortedAddrs) {b : Block} (hb : g.block? a = some b) : Listed Q b.insts := by
  rcases hg.node_cases ha with ⟨e, he, hna, -⟩ | ⟨hna, -⟩
  · rw [Cfg.block?, hna] at hb
    obtain ⟨is, his, rfl⟩ := Option.map_eq_some_iff.1 hb
    exact (hs e he).insts is his
  · rw [Cfg.block?, hna] at hb
    cases hb

theorem isRead (hg : Gathered Q entries g) (hs : ∀ e ∈ entries, e.Sound Q) (hQ : ¬ Q '\n') :
    g.IsRead Q := by
  refine ⟨coherent_view fun n hn b hb => ?_, ⟨fun a ha hm => ?_, fun a ha k hk => ?_,
    fun a ha b hb c hc => ?_, fun a ha b hb => (hg.listed hs ha hb).legible⟩,
    fun a ha b hb => hg.listed hs ha hb, fun a ha => ?_⟩
  · rcases hg.node n hn with ⟨e, he, rfl⟩ | ⟨hfresh, -⟩
    · obtain ⟨is, -, rfl⟩ := Option.map_eq_some_iff.1 hb
      rfl
    · rw [hfresh] at hb
      cases hb
  · rcases hg.node_cases ha with ⟨e, he, -, rfl⟩ | ⟨-, l, hl, rfl⟩
    · exact hQ ((hs e he).chars _ hm)
    · exact hQ (hg.target l hl _ hm)
  · change g.number? a = some k at hk
    rcases hg.node_cases ha with ⟨e, he, hna, -⟩ | ⟨hna, -⟩
    · rw [Cfg.number?, hna] at hk
      exact (hs e he).number k hk
    · rw [Cfg.number?, hna] at hk
      cases hk
  · obtain ⟨l, hl, rfl, rfl⟩ := Cfg.mem_succ_iff.1 hb
    refine hg.cond l hl c ?_
    rw [← Cfg.edgeCond?_of_mem hl]
    exact hc
  · rcases hg.node_cases ha with ⟨e, he, -, rfl⟩ | ⟨hna, l, hl, rfl⟩
    · exact .inl (hs e he).label
    · refine .inr ⟨⟨?_, ?_⟩, l.source, Cfg.mem_succ_iff.2 ⟨l, hl, rfl, rfl⟩⟩
      · rw [Cfg.number?, hna]
        rfl
      · rw [Cfg.block?, hna]
        rfl

end Gathered

/-- **What is read.** -/
theorem isRead_of_readDump {text : String} {g : Cfg} (h : (readDump text).result.1 = .ok g)
    (hQ : ¬ Q '\n') (hlines : ∀ line ∈ lines text.toList, ∀ c ∈ line, Q c) : g.IsRead Q := by
  rw [result_readDump] at h
  obtain ⟨r, hr, h₁⟩ := ok_of_bind h
  obtain ⟨entries, hentries, hgraph⟩ := ok_of_bind h₁
  have hsound : r.Sound Q := Reading.sound_start.readLines hQ hlines hr
  obtain rfl := Reading.eq_of_finish hentries
  exact (gathered_of_graph hsound.entries hsound.distinct hgraph).isRead hsound.entries hQ

end FlowText
