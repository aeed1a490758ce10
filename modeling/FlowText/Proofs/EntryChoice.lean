import FlowText.Proofs.SecondDump
import FlowText.Proofs.StockPasses

/-!
# The entry of a graph that is read back

A dump does not say where its graph is entered. Who reads it takes the first address that no edge
leads to, and otherwise the first of all (`Cfg.entryRead?`), and in a dump the addresses stand in
natural order. So a graph that is dumped and read has the same ways as before (`Cfg.SameWays`), but
not always the same entry (`entry_not_always_kept`).

The numbers in postorder are settled by the ways and the entry (`Cfg.SameWays.postorder`), and as
the entry comes last in postorder they tell which one it is (`Cfg.SameWays.orderNumber_iff`). So
numbers last if and only if the entry is the one that is read (`numbers_last_iff`).
-/

namespace FlowText

variable {σ : Type}

namespace Cfg

variable {g h : Cfg}

/-- **The entry that is read.** The first address in natural order that no edge leads to, and the
first of all if edges lead to each. -/
def entryRead? (g : Cfg) : Option String :=
  (g.sortedAddrs.find? fun a => (g.pred a).isEmpty).or g.sortedAddrs.head?

/-- An address that no edge leads to is read as the entry if there is no other one. -/
theorem entryRead?_of_unique {a : String} (ha : a ∈ g.sortedAddrs) (hp : g.pred a = [])
    (hu : ∀ b ∈ g.sortedAddrs, g.pred b = [] → b = a) : g.entryRead? = some a := by
  rw [entryRead?]
  cases hf : g.sortedAddrs.find? fun a => (g.pred a).isEmpty with
  | none =>
    rw [List.find?_eq_none] at hf
    exact absurd (List.isEmpty_iff.2 hp) (hf a ha)
  | some b =>
    have hb := List.find?_some hf
    rw [hu b (List.mem_of_find?_eq_some hf) (List.isEmpty_iff.1 hb)]
    rfl

/-! ### Postorder -/

/-- A walk meets addresses of the graph only. -/
theorem mem_of_postorder {a : String} (ha : a ∈ g.toAddrMap.postorder) :
    a ∈ g.nodes.map Node.addr := by
  rw [← addrs_toAddrMap]
  rw [AddrMap.postorder] at ha
  split at ha
  · exact (mem_depthFirst ha).1
  · cases ha

/-- It meets no more of them than there are. -/
theorem length_toAddrMap_postorder_le (g : Cfg) : g.toAddrMap.postorder.length ≤ g.nodeCount := by
  have hsub := (nodup_postorder g.toAddrMap).subperm fun _ => mem_of_postorder
  have hle := hsub.length_le
  rwa [List.length_map] at hle

/-- The entry is left last. -/
theorem getLast?_postorder (g : Cfg) : g.toAddrMap.postorder.getLast? = g.entry? := by
  rw [AddrMap.postorder, entry?_toAddrMap]
  cases he : g.entry? with
  | none => rfl
  | some a => exact getLast?_depthFirst (g.addrs_toAddrMap ▸ mem_of_entry? he)

/-- Numbers count the nodes of a walk from one. -/
theorem orderNumber_eq_some_iff {a : String} {i : Nat} :
    g.orderNumber a = some (i + 1) ↔ g.toAddrMap.postorder[i]? = some a := by
  rw [orderNumber]
  constructor
  · intro h
    split at h
    · next ha =>
      obtain rfl : g.toAddrMap.postorder.idxOf a = i := by simpa using h
      exact List.getElem?_idxOf ha
    · cases h
  · intro h
    obtain ⟨hi, rfl⟩ := List.getElem?_eq_some_iff.1 h
    rw [if_pos (List.getElem_mem hi), (nodup_postorder _).idxOf_getElem]

/-- No number is above the number of nodes. -/
theorem orderNumber_le {a : String} {n : Nat} (h : g.orderNumber a = some n) : n ≤ g.nodeCount := by
  rw [orderNumber] at h
  split at h
  · next ha =>
    cases h
    exact Nat.le_trans (List.idxOf_lt_length_of_mem ha) g.length_toAddrMap_postorder_le
  · cases h

/-- What is no address of the graph has no number. -/
theorem orderNumber_eq_none {a : String} (h : a ∉ g.sortedAddrs) : g.orderNumber a = none := by
  rw [orderNumber, if_neg fun ha => h (mem_sortedAddrs.2 (mem_of_postorder ha))]

/-- The numbers tell the order. -/
theorem postorder_eq_of_orderNumber (h' : ∀ a, h.orderNumber a = g.orderNumber a) :
    h.toAddrMap.postorder = g.toAddrMap.postorder := by
  refine List.ext_getElem? fun i => Option.ext fun a => ?_
  rw [← orderNumber_eq_some_iff, ← orderNumber_eq_some_iff, h']

/-! ### Graphs with the same ways -/

/-- **Same ways.** The graphs have the same addresses, and the edges of each lead to the same ones
in the same order. -/
structure SameWays (g h : Cfg) : Prop where
  addrs : h.sortedAddrs = g.sortedAddrs
  succ : ∀ a, h.succ a = g.succ a

/-- Graphs of the same shape have the same ways. -/
theorem SameShape.sameWays (hs : SameShape g h) : SameWays g h :=
  ⟨hs.sortedAddrs, hs.succ⟩

namespace SameWays

theorem trans {k : Cfg} (hgh : SameWays g h) (hhk : SameWays h k) : SameWays g k :=
  ⟨hhk.addrs.trans hgh.addrs, fun a => (hhk.succ a).trans (hgh.succ a)⟩

/-- Where no way leads in one graph, none leads in the other. -/
theorem isEmpty_pred (hw : SameWays g h) (a : String) :
    (h.pred a).isEmpty = (g.pred a).isEmpty := by
  rw [Bool.eq_iff_iff, List.isEmpty_iff, List.isEmpty_iff, List.eq_nil_iff_forall_not_mem,
    List.eq_nil_iff_forall_not_mem]
  refine forall_congr' fun b => ?_
  rw [mem_pred_iff, mem_pred_iff, hw.succ]

/-- The same entry is read. -/
theorem entryRead? (hw : SameWays g h) : h.entryRead? = g.entryRead? := by
  have hpred : (fun a => (h.pred a).isEmpty) = fun a => (g.pred a).isEmpty := funext hw.isEmpty_pred
  rw [Cfg.entryRead?, Cfg.entryRead?, hw.addrs, hpred]

/-- From the same entry a walk meets the same addresses. -/
theorem postorder (hw : SameWays g h) (he : h.entry? = g.entry?) :
    h.toAddrMap.postorder = g.toAddrMap.postorder := by
  have hsucc : h.toAddrMap.succ = g.toAddrMap.succ := by
    funext a
    rw [succ_toAddrMap, succ_toAddrMap, hw.succ]
  have hmem : ∀ a, a ∈ h.toAddrMap.addrs ↔ a ∈ g.toAddrMap.addrs := by
    intro a
    rw [addrs_toAddrMap, addrs_toAddrMap, ← mem_sortedAddrs, ← mem_sortedAddrs, hw.addrs]
  rw [AddrMap.postorder, AddrMap.postorder, entry?_toAddrMap, entry?_toAddrMap, he, hsucc]
  cases g.entry? with
  | none => rfl
  | some a => exact depthFirst_congr hmem [a]

/-- **Numbers and entry.** With the same ways, the numbers are the same if and only if the entry
is. -/
theorem orderNumber_iff (hw : SameWays g h) :
    (∀ a, h.orderNumber a = g.orderNumber a) ↔ h.entry? = g.entry? := by
  constructor
  · intro hn
    rw [← getLast?_postorder, ← getLast?_postorder, postorder_eq_of_orderNumber hn]
  · intro he a
    rw [orderNumber, orderNumber, hw.postorder he]

end SameWays

/-! ### Numbered graphs -/

/-- **Numbered**, a node has the number of its place in the walk. -/
theorem number?_numberPostorder (g : Cfg) (a : String) :
    g.numberPostorder.2.number? a = g.orderNumber a := by
  rw [numberPostorder_eq_mapNodes, number?, node?_mapNodes]
  cases hn : g.node? a with
  | none =>
    refine (orderNumber_eq_none fun ha => ?_).symm
    obtain ⟨n, hm, rfl⟩ := List.mem_map.1 (mem_sortedAddrs.1 ha)
    cases (node?_eq_some_iff.2 ⟨hm, rfl⟩).symm.trans hn
  | some n =>
    obtain ⟨-, rfl⟩ := node?_eq_some_iff.1 hn
    rfl

/-- Numbering leaves a graph as it is if the numbers are those of the order. -/
theorem numberPostorder_eq_self_iff_number? :
    g.numberPostorder.2 = g ↔ ∀ a, g.number? a = g.orderNumber a := by
  constructor
  · intro hg a
    rw [← number?_numberPostorder, hg]
  · intro hn
    rw [numberPostorder_eq_mapNodes, mapNodes_eq_self_iff]
    intro n hm
    have hnumber : g.number? n.addr = n.number := by
      rw [number?, node?_eq_some_iff.2 ⟨hm, rfl⟩]
      rfl
    rw [← hn, hnumber]

/-- What the pass reports. -/
theorem on_numberPostorder (b : Bench σ Cfg) :
    (Pass.numberPostorder.run.on b).1 = .ok (decide (b.subject.numberPostorder.2 ≠ b.subject)) := by
  obtain ⟨changed, log, hrun, hchanged⟩ := Stock.numberPostorder.actsAs b
  have hdecide : changed = decide (b.subject.numberPostorder.2 ≠ b.subject) := by
    rw [Bool.eq_iff_iff, decide_eq_true_iff]
    exact hchanged
  rw [← hdecide]
  exact congrArg Prod.fst hrun

/-- **Only numbers** are different in the view of a numbered graph. -/
theorem view_numberPostorder (g : Cfg) :
    g.numberPostorder.2.view = { g.view with number? := g.orderNumber } := by
  have hs := sameShape_numberPostorder g
  simp only [view, View.mk.injEq]
  refine ⟨hs.sameWays.addrs, funext g.block?_numberPostorder, funext g.number?_numberPostorder,
    funext hs.pred, funext hs.succ, ?_⟩
  funext s t
  exact hs.edgeCond? s t

end Cfg

/-! ### Other numbers -/

namespace View

variable {v : View}

/-- Numbers have no part in whether a view is coherent. -/
theorem Coherent.renumber (h : v.Coherent) (numbers : String → Option Nat) :
    View.Coherent { v with number? := numbers } :=
  ⟨h.sorted, h.nodup, h.succ_mem, h.succ_nodup, h.pred_perm, h.block_addr⟩

/-- With other numbers in range a view can be read as before. -/
theorem Legible.renumber (h : v.Legible) {numbers : String → Option Nat}
    (hn : ∀ a ∈ v.addrs, ∀ n ∈ numbers a, n < wordLimit) :
    View.Legible { v with number? := numbers } :=
  ⟨h.one_line, hn, h.cond, h.block⟩

/-- Numbers have no part in whether labels are labels, and blocks are not taken for missing ones. -/
theorem Unambiguous.renumber (h : v.Unambiguous) (numbers : String → Option Nat) :
    View.Unambiguous { v with number? := numbers } :=
  ⟨h.label, h.unshadowed⟩

end View

/-! ### What is read back -/

/-- The graph that is read back has the same ways. -/
theorem Mirrors.sameWays {v : View} {g h : Cfg} (hm : Mirrors v h) (ha : v.addrs = g.sortedAddrs)
    (hs : v.succ = g.succ) : g.SameWays h := by
  have haddrs : h.sortedAddrs = g.sortedAddrs := hm.addrs.trans ha
  refine ⟨haddrs, Cfg.succ_congr haddrs fun a hmem => ?_⟩
  rw [← hs]
  exact hm.succ a (ha ▸ hmem)

namespace Cfg.IsRead

variable {Q : Char → Prop} {g h : Cfg}

/-- If the dump is read at all, none of its lines is misread. -/
theorem unambiguous_reread (hg : g.IsRead Q)
    (hh : (readDump (unlines g.view.lines)).result.1 = .ok h) : g.view.reread.Unambiguous := by
  rw [result_readDump, hg.legible.lines_dump_eq_reread hg.coherent] at hh
  obtain ⟨r, hr, -⟩ := ok_of_bind hh
  exact hg.legible.reread.unambiguous hg.coherent.reread.nodup hg.guarded hr

/-- **Dumped and read.** The same ways, and the entry that is read. -/
theorem exists_read_back (hg : g.IsRead Q) (hu : g.view.reread.Unambiguous) :
    ∃ h, (readDump (unlines g.view.lines)).result.1 = .ok h ∧ g.SameWays h ∧
      h.entry? = g.entryRead? := by
  obtain ⟨h, hh, hm, he⟩ := hg.legible.reread.read_back hg.coherent.reread hu
    (hg.legible.lines_dump_eq_reread hg.coherent)
  exact ⟨h, hh, hm.sameWays rfl rfl, he⟩

/-- **Numbered, dumped and read.** The numbers are those that the graph was given, and the entry is
the one that is read. -/
theorem exists_read_back_numbered (hg : g.IsRead Q) (hu : g.view.reread.Unambiguous)
    (hn : g.nodeCount < wordLimit) :
    ∃ text k, g.numberPostorder.2.view.dump canonicalRenderer = .ok text ∧
      (readDump text).result.1 = .ok k ∧ g.SameWays k ∧ k.entry? = g.entryRead? ∧
      ∀ a, k.number? a = g.orderNumber a := by
  have hlimit : ∀ a ∈ g.view.addrs, ∀ n ∈ g.orderNumber a, n < wordLimit := fun a _ n hna =>
    Nat.lt_of_le_of_lt (orderNumber_le hna) hn
  have hl : g.numberPostorder.2.view.Legible := by
    rw [view_numberPostorder]
    exact hg.legible.renumber hlimit
  have hc : g.numberPostorder.2.view.Coherent := by
    rw [view_numberPostorder]
    exact hg.coherent.renumber _
  have hu' : g.numberPostorder.2.view.reread.Unambiguous := by
    rw [view_numberPostorder]
    exact hu.renumber g.orderNumber
  obtain ⟨k, hk, hm, he⟩ := hl.reread.read_back hc.reread hu' (hl.lines_dump_eq_reread hc)
  have hshape : g.SameWays g.numberPostorder.2 := (sameShape_numberPostorder g).sameWays
  have hways : g.SameWays k := hshape.trans (hm.sameWays rfl rfl)
  refine ⟨_, k, hl.dump, hk, hways, he.trans hshape.entryRead?, fun a => ?_⟩
  by_cases ha : a ∈ g.sortedAddrs
  · have ha' : a ∈ g.numberPostorder.2.sortedAddrs := hshape.addrs ▸ ha
    exact (hm.number a ha').trans (g.number?_numberPostorder a)
  · rw [orderNumber_eq_none ha, number?, node?_eq_none (hways.addrs ▸ ha)]
    rfl

end Cfg.IsRead

/-- Labels whose blocks are empty are not misread. -/
theorem Cfg.unambiguous_of_bare {g : Cfg}
    (h : ∀ n ∈ g.nodes, IsLabel n.addr ∧ ∀ b ∈ n.block, b.insts = []) :
    g.view.reread.Unambiguous := by
  refine ⟨fun a ha => ?_, fun a ha b hb hs => ?_⟩
  · obtain ⟨n, hn, rfl⟩ := List.mem_map.1 (Cfg.mem_sortedAddrs.1 ha)
    exact (h n hn).1
  · obtain ⟨c, hc, hcb⟩ := Option.bind_eq_some_iff.1 hb
    obtain ⟨n, hn, hnc⟩ := Option.bind_eq_some_iff.1 hc
    obtain ⟨i, hi, -⟩ := hs
    rw [(Block.reread?_eq_some hcb).2.1, (h n (Cfg.node?_eq_some_iff.1 hn).1).2 c hnc] at hi
    cases hi

/-- **Which entry is read, and when numbers last.** If the dump of a graph that was read is read
again, the graph has the entry that is read, and this does not change any more. Numbering gives both
graphs the same numbers if and only if the entry has stayed. The numbered graph can be dumped and
read too; what is read needs no other numbers if and only if the entry has stayed. A machine word
counts the nodes, as it does for any graph in memory. -/
theorem numbers_last_iff {text dump : String} {g h : Cfg} (hg : (readDump text).result.1 = .ok g)
    (hd : g.view.dump canonicalRenderer = .ok dump) (hh : (readDump dump).result.1 = .ok h) :
    h.entry? = g.entryRead? ∧ h.entryRead? = h.entry? ∧
      ((∀ a, h.numberPostorder.2.number? a = g.numberPostorder.2.number? a) ↔
        g.entry? = g.entryRead?) ∧
      (g.nodeCount < wordLimit →
        ∃ second k, g.numberPostorder.2.view.dump canonicalRenderer = .ok second ∧
          (readDump second).result.1 = .ok k ∧
          ∀ b : Bench σ Cfg, b.subject = k →
            (Pass.numberPostorder.run.on b).1 = .ok (decide (g.entry? ≠ g.entryRead?))) := by
  have hread := isRead_of_ok hg
  obtain rfl := Except.ok.inj (hread.legible.dump.symm.trans hd)
  have hu := hread.unambiguous_reread hh
  obtain ⟨h', hh', hways, he⟩ := hread.exists_read_back hu
  obtain rfl := Except.ok.inj (hh.symm.trans hh')
  refine ⟨he, hways.entryRead?.trans he.symm, ?_, fun hn => ?_⟩
  · simp only [Cfg.number?_numberPostorder]
    rw [hways.orderNumber_iff, he, eq_comm]
  · obtain ⟨second, k, hsecond, hk, hways', he', hnumber⟩ := hread.exists_read_back_numbered hu hn
    refine ⟨second, k, hsecond, hk, ?_⟩
    rintro b rfl
    have hsame : b.subject.numberPostorder.2 = b.subject ↔ g.entry? = g.entryRead? := by
      rw [Cfg.numberPostorder_eq_self_iff_number?, eq_comm (a := g.entry?), ← he',
        ← hways'.orderNumber_iff]
      exact forall_congr' fun a => by rw [hnumber, eq_comm]
    rw [Cfg.on_numberPostorder]
    simp only [Ne, hsame]

/-- Two blocks, of which the one that is written first leads to the other one. -/
def leadText : String := "b:\nExits: [(None, 'a')]\na:\nExits: []\n"

/-- The graph of the text. Its dump can be read, and it has the entry that is read. -/
theorem exists_read_leadText :
    ∃ g h, (readDump leadText).result.1 = .ok g ∧
      (readDump (unlines g.view.lines)).result.1 = .ok h ∧ g.entry? = some "b" ∧
      g.entryRead? = some "b" ∧ g.nodeCount = 2 := by
  have hfacts : (readDump leadText).result.1.map (fun g =>
      (g.nodes, g.entry?, g.pred "a", g.pred "b", g.nodeCount)) =
      .ok ([{ addr := "b", block := some ⟨"b", []⟩ }, { addr := "a", block := some ⟨"a", []⟩ }],
        some "b", ["b"], [], 2) := by decide +kernel
  obtain ⟨g, hg, hfound⟩ := ok_of_map hfacts
  obtain ⟨hn, he, ha, hb, hcount⟩ :
      g.nodes = _ ∧ g.entry? = _ ∧ g.pred "a" = _ ∧ g.pred "b" = _ ∧ g.nodeCount = _ := by
    simpa only [Prod.mk.injEq] using hfound
  have hu : g.view.reread.Unambiguous := Cfg.unambiguous_of_bare (by rw [hn]; decide)
  obtain ⟨h, hh, -⟩ := (isRead_of_ok hg).exists_read_back hu
  have hmem : ∀ a, a ∈ g.sortedAddrs ↔ a = "b" ∨ a = "a" := by
    intro a
    rw [Cfg.mem_sortedAddrs, hn]
    simp
  refine ⟨g, h, hg, hh, he, ?_, hcount⟩
  refine Cfg.entryRead?_of_unique ((hmem "b").2 (.inl rfl)) hb fun c hc hnil => ?_
  rcases (hmem c).1 hc with rfl | rfl
  · rfl
  · cases ha.symm.trans hnil

/-- The two blocks keep their entry, and their numbers last. -/
theorem lead_numbers_last :
    ∃ g dump h, (readDump leadText).result.1 = .ok g ∧ g.view.dump canonicalRenderer = .ok dump ∧
      (readDump dump).result.1 = .ok h ∧ h.entry? = some "b" ∧
      (∀ a, h.numberPostorder.2.number? a = g.numberPostorder.2.number? a) ∧
      ∃ second k, g.numberPostorder.2.view.dump canonicalRenderer = .ok second ∧
        (readDump second).result.1 = .ok k ∧
        ∀ b : Bench Unit Cfg, b.subject = k → (Pass.numberPostorder.run.on b).1 = .ok false := by
  obtain ⟨g, h, hg, hh, he, hr, hcount⟩ := exists_read_leadText
  have hd := (isRead_of_ok hg).legible.dump
  have hsame : g.entry? = g.entryRead? := he.trans hr.symm
  obtain ⟨hentry, -, hnumbers, hpass⟩ := numbers_last_iff (σ := Unit) hg hd hh
  obtain ⟨second, k, hsecond, hk, hrun⟩ := hpass (by rw [hcount]; decide)
  have hstill : decide (g.entry? ≠ g.entryRead?) = false := decide_eq_false (not_not.2 hsame)
  exact ⟨g, _, h, hg, hd, hh, hentry.trans hr, hnumbers.2 hsame, second, k, hsecond, hk,
    fun b hb => (hrun b hb).trans (congrArg _ hstill)⟩

/-- Two blocks that no edge joins. -/
def islesText : String := "b:\nExits: []\na:\nExits: []\n"

/-- **An entry that is not kept.** The first block of this text is the entry, but it is dumped
last. -/
theorem entry_not_always_kept :
    ¬ ∀ (text dump : String) (g h : Cfg), (readDump text).result.1 = .ok g →
      g.view.dump canonicalRenderer = .ok dump → (readDump dump).result.1 = .ok h →
        h.entry? = g.entry? := by
  intro hall
  have hfacts : (readDump islesText).result.1.map (fun g => (g.nodes, g.entry?, g.pred "a")) =
      .ok ([{ addr := "b", block := some ⟨"b", []⟩ }, { addr := "a", block := some ⟨"a", []⟩ }],
        some "b", []) := by decide +kernel
  obtain ⟨g, hg, hfound⟩ := ok_of_map hfacts
  obtain ⟨hn, he, ha⟩ : g.nodes = _ ∧ g.entry? = _ ∧ g.pred "a" = _ := by
    simpa only [Prod.mk.injEq] using hfound
  have hread := isRead_of_ok hg
  have hu : g.view.reread.Unambiguous := Cfg.unambiguous_of_bare (by rw [hn]; decide)
  obtain ⟨h, hh, -, hentry⟩ := hread.exists_read_back hu
  have hsorted : g.sortedAddrs = ["a", "b"] := by
    rw [Cfg.sortedAddrs_eq, hn]
    have hpair : ["a", "b"].Pairwise fun x y => notBehind (id x) (id y) = true := by decide
    exact (sortNatural_eq_of_perm (.swap "a" "b" [])).trans (sortByName_of_pairwise hpair)
  have hfirst : g.entryRead? = some "a" := by
    rw [Cfg.entryRead?, hsorted, List.find?_cons_of_pos (by rw [ha]; rfl)]
    rfl
  have hkept := hall islesText _ g h hg hread.legible.dump hh
  rw [hentry, hfirst, he] at hkept
  exact absurd hkept (by decide)

end FlowText
