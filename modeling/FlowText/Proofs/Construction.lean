import FlowText.Proofs.Building
import FlowText.Proofs.DumpEntries
import FlowText.Proofs.Mirrors

/-!
# Dumps and how a graph was built

Graphs are alike (`Cfg.Alike`) if the same is asked of them at each address; identifiers, the order
in which nodes and edges came in, the order of predecessors and the entry are not asked for. The
natural order tells all names apart, so alike graphs list their addresses in one way only
(`Cfg.Alike.sortedAddrs`), and predecessors are the transpose of successors, so sorted they are the
same too. Hence alike graphs have one dump (`dump_forgets_construction`). What a line of a dump
lists can be told from its text (`predListing_inj`, `exitListing_inj`).
-/

namespace FlowText

/-! ### Lines that list names -/

/-- The line that lists names as predecessors. -/
def predListing (names : List String) : String :=
  Dump.predMark ++ " [" ++ ", ".intercalate (names.map Quoted.encode) ++ "]\n"

/-- The line that lists exits. -/
def exitListing (exits : List Exit) : String := Dump.exitsMark ++ " " ++ Exits.text exits ++ "\n"

/-- A literal tells its text and where it ends. -/
theorem encode_append_inj {s t : String} {rest more : List Char}
    (h : (Quoted.encode s).toList ++ rest = (Quoted.encode t).toList ++ more) :
    s = t ∧ rest = more := by
  have hboth := congrArg Exits.literal h
  rw [Exits.literal_encode, Exits.literal_encode] at hboth
  exact Prod.mk.inj (Except.ok.inj hboth)

/-- What stands behind a name in a list of literals. -/
def behind : List String → List Char
  | [] => [']', '\n']
  | n :: ns =>
    ',' :: ' ' :: ((", ".intercalate ((n :: ns).map Quoted.encode)).toList ++ [']', '\n'])

theorem toList_listing_cons (n : String) (ns : List String) :
    (", ".intercalate ((n :: ns).map Quoted.encode)).toList ++ [']', '\n'] =
      (Quoted.encode n).toList ++ behind ns := by
  cases ns <;> simp [behind, String.intercalate_cons_cons]

/-- A list of literals tells their texts. The induction is on the names of the one list. -/
theorem listing_inj {names names' : List String}
    (h : (", ".intercalate (names.map Quoted.encode)).toList ++ [']', '\n'] =
      (", ".intercalate (names'.map Quoted.encode)).toList ++ [']', '\n']) : names = names' := by
  have hne :
      ∀ n ns, (", ".intercalate (([] : List String).map Quoted.encode)).toList ++ [']', '\n'] ≠
      (", ".intercalate ((n :: ns).map Quoted.encode)).toList ++ [']', '\n'] := by
    intro n ns heq
    rw [toList_listing_cons, Exits.toList_encode] at heq
    exact absurd (List.cons.inj heq).1 (by decide)
  induction names generalizing names' with
  | nil =>
    cases names' with
    | nil => rfl
    | cons m ms => exact absurd h (hne m ms)
  | cons n ns ih =>
    cases names' with
    | nil => exact absurd h.symm (hne n ns)
    | cons m ms =>
      rw [toList_listing_cons, toList_listing_cons] at h
      obtain ⟨rfl, hbehind⟩ := encode_append_inj h
      cases ns with
      | nil =>
        cases ms with
        | nil => rfl
        | cons m' ms => exact absurd (List.cons.inj hbehind).1 (by decide)
      | cons n' ns =>
        cases ms with
        | nil => exact absurd (List.cons.inj hbehind).1 (by decide)
        | cons m' ms => rw [ih (List.cons.inj (List.cons.inj hbehind).2).2]

theorem predListing_inj {names names' : List String} (h : predListing names = predListing names') :
    names = names' := by
  have htext := congrArg String.toList h
  simp only [predListing, String.toList_append, List.append_assoc,
    List.append_cancel_left_eq] at htext
  exact listing_inj htext

theorem exitListing_inj {exits exits' : List Exit} (h : exitListing exits = exitListing exits') :
    exits = exits' := by
  have htext := congrArg String.toList h
  simp only [exitListing, String.toList_append, List.append_assoc, List.append_cancel_left_eq,
    List.append_cancel_right_eq] at htext
  have hread := Exits.read_text exits
  rw [htext, Exits.read_text] at hread
  exact (Except.ok.inj hread).symm

/-- The line lists the name as a predecessor. -/
def ListsPred (line name : String) : Prop := ∃ names, line = predListing names ∧ name ∈ names

/-- The line lists an exit to the name. -/
def ListsExit (line name : String) : Prop :=
  ∃ exits, line = exitListing exits ∧ ∃ cond, (cond, name) ∈ exits

namespace View

theorem listsPred_iff {v : View} {addr name : String} :
    ListsPred (v.predLine addr) name ↔ name ∈ v.pred addr := by
  have hline : v.predLine addr =
      predListing ((v.pred addr).mergeSort fun a b => decide (a ≤ b)) := rfl
  rw [hline, ← (List.mergeSort_perm (v.pred addr) _).mem_iff]
  constructor
  · rintro ⟨names, hnames, hmem⟩
    rwa [predListing_inj hnames]
  · exact fun hmem => ⟨_, rfl, hmem⟩

theorem listsExit_iff {v : View} {addr name : String} :
    ListsExit (v.exitsLine addr) name ↔ name ∈ v.succ addr := by
  have hline : v.exitsLine addr = exitListing (v.exits addr) := rfl
  rw [hline]
  constructor
  · rintro ⟨exits, hexits, cond, hmem⟩
    rw [← exitListing_inj hexits] at hmem
    obtain ⟨target, htarget, heq⟩ := List.mem_map.1 hmem
    obtain rfl := (Prod.mk.inj heq).2
    exact htarget
  · exact fun hmem => ⟨_, rfl, _, List.mem_map.2 ⟨name, hmem, rfl⟩⟩

end View

/-! ### Graphs that are alike -/

namespace Cfg

/-- **Alike.** The graphs have the same addresses, and at each of them the same block, number and
successors, with the same conditions on the edges to these. -/
structure Alike (g h : Cfg) : Prop where
  addrs : ∀ addr, addr ∈ g.nodes.map Node.addr ↔ addr ∈ h.nodes.map Node.addr
  block : ∀ addr ∈ g.nodes.map Node.addr, g.block? addr = h.block? addr
  number : ∀ addr ∈ g.nodes.map Node.addr, g.number? addr = h.number? addr
  succ : ∀ addr ∈ g.nodes.map Node.addr, g.succ addr = h.succ addr
  edgeCond : ∀ s ∈ g.nodes.map Node.addr, ∀ t ∈ g.succ s, g.edgeCond? s t = h.edgeCond? s t

namespace Alike

variable {g h : Cfg}

theorem sortedAddrs (ha : Alike g h) : g.sortedAddrs = h.sortedAddrs := by
  rw [sortedAddrs_eq, sortedAddrs_eq]
  exact sortNatural_eq_of_perm ((List.perm_ext_iff_of_nodup g.addrs_nodup h.addrs_nodup).2 ha.addrs)

/-- Predecessors come in another order at most: an edge comes from an address of both graphs. -/
theorem perm_pred (ha : Alike g h) (addr : String) : (g.pred addr).Perm (h.pred addr) := by
  refine (List.perm_ext_iff_of_nodup (g.nodup_pred addr) (h.nodup_pred addr)).2 fun s => ?_
  rw [mem_pred_iff, mem_pred_iff]
  constructor
  · intro hs
    rwa [← ha.succ s (mem_sortedAddrs.1 (mem_sortedAddrs_of_succ hs).1)]
  · intro hs
    rwa [ha.succ s ((ha.addrs s).2 (mem_sortedAddrs.1 (mem_sortedAddrs_of_succ hs).1))]

/-- The entry of an address is made of what is asked at it. -/
theorem entry (ha : Alike g h) (render : Renderer) {addr : String}
    (hmem : addr ∈ g.nodes.map Node.addr) :
    g.view.entry render addr = h.view.entry render addr := by
  have hpred : g.view.predLine addr = h.view.predLine addr :=
    congrArg predListing (mergeSort_eq_of_perm (ha.perm_pred addr))
  have hnumber : g.view.numberLine addr = h.view.numberLine addr := by
    have hn : g.view.number? addr = h.view.number? addr := ha.number addr hmem
    rw [View.numberLine, View.numberLine, hn]
  have hbody : g.view.bodyText render addr = h.view.bodyText render addr := by
    have hb : g.view.block? addr = h.view.block? addr := ha.block addr hmem
    rw [View.bodyText, View.bodyText, hb]
  have hexits : g.view.exitsLine addr = h.view.exitsLine addr := by
    have hlist : g.view.exits addr = h.view.exits addr := by
      have hs : h.view.succ addr = g.view.succ addr := (ha.succ addr hmem).symm
      rw [View.exits, View.exits, hs]
      refine List.map_congr_left fun t ht => ?_
      have hc : g.view.edgeCond? addr t = h.view.edgeCond? addr t := ha.edgeCond addr hmem t ht
      rw [hc]
    rw [View.exitsLine, View.exitsLine, hlist]
  rw [View.entry, View.entry, hpred, hnumber, hbody, hexits]

end Alike

end Cfg

/-- **Construction is forgotten.** Alike graphs have one dump, text or error, whatever changes made
them, in whatever order, and whatever entry is set. A dump has one entry for each address, in
strictly ascending natural order. A name is listed among the predecessors of an address if and only
if the exits of the name lead to the address. -/
theorem dump_forgets_construction {g h : Cfg} (ha : g.Alike h) (render : Renderer) :
    g.view.dump render = h.view.dump render ∧
      g.view.dump render = (g.view.addrs.mapM (g.view.entry render)).map "\n".intercalate ∧
      (∀ addr, addr ∈ g.view.addrs ↔ addr ∈ g.nodes.map Node.addr) ∧
      (g.view.addrs.Pairwise fun a b => natural a b = .lt) ∧
      ∀ p b, ListsPred (g.view.predLine b) p ↔ ListsExit (g.view.exitsLine p) b := by
  refine ⟨?_, g.view.dump_eq_entries render, fun addr => Cfg.mem_sortedAddrs, ?_, fun p b => ?_⟩
  · have haddrs : h.view.addrs = g.view.addrs := ha.sortedAddrs.symm
    have hentries := mapM_congr_of_mem (l := g.view.addrs) fun addr hmem =>
      ha.entry render (Cfg.mem_sortedAddrs.1 hmem)
    rw [View.dump_eq_entries, View.dump_eq_entries, haddrs, hentries]
  · change g.sortedAddrs.Pairwise _
    rw [Cfg.sortedAddrs_eq]
    exact pairwise_natural_lt g.addrs_nodup
  · rw [View.listsPred_iff, View.listsExit_iff]
    exact Cfg.mem_pred_iff

/-- Changes that make a graph where two nodes have an edge to a third one. -/
def joinChanges : List Change :=
  [.edge "b10" "join" none, .edge "b9" "join" none,
    .block { addr := "b9", insts := [.ret] }, .entry "b9"]

/-- Made the other way round, the graph has its nodes and edges in another order and another
entry. -/
theorem join_forgets_construction :
    (Cfg.build joinChanges).Alike (Cfg.build joinChanges.reverse) ∧
      (Cfg.build joinChanges).pred "join" ≠ (Cfg.build joinChanges.reverse).pred "join" ∧
      ∀ render, (Cfg.build joinChanges).view.dump render =
        (Cfg.build joinChanges.reverse).view.dump render := by
  have ha : (Cfg.build joinChanges).Alike (Cfg.build joinChanges.reverse) := by
    have hg : (Cfg.build joinChanges).nodes.map Node.addr = ["b10", "join", "b9"] := by
      decide +kernel
    have hh : (Cfg.build joinChanges.reverse).nodes.map Node.addr = ["b9", "join", "b10"] := by
      decide +kernel
    refine ⟨fun addr => ?_, ?_, ?_, ?_, ?_⟩
    · rw [hg, hh]
      simp only [List.mem_cons, List.not_mem_nil]
      tauto
    all_goals decide +kernel
  exact ⟨ha, by decide +kernel, fun render => (dump_forgets_construction ha render).1⟩

end FlowText
