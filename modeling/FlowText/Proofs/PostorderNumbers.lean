import FlowText.Proofs.EntryChoice
import FlowText.Proofs.Reachable
import Mathlib.Data.Set.Function
import Mathlib.Order.Interval.Set.Basic

/-!
# Numbers in postorder

Numbering goes through the addresses in postorder. So the numbers are places in that order
(`orderNumber_eq_some_iff`), what is known of a walk depth first is known of the numbers, and no old
number plays a part (`number?_numberPostorder`).

An edge leads to a smaller number, unless there is a way back (`orderNumber_edge`). Without such
ways the numbers are a topological order against the edges (`numbers_order_graph`).
-/

namespace FlowText

namespace Cfg

variable {g : Cfg} {a u v : String}

/-- **Reached.** There is a way from the entry to the address. -/
def Reached (g : Cfg) (a : String) : Prop := ∃ e, g.entry? = some e ∧ Reachable g.succ e a

/-- **On a cycle.** There is a way from the address to itself, with one edge at least. -/
def OnCycle (g : Cfg) (a : String) : Prop := Relation.TransGen (fun u v => v ∈ g.succ u) a a

/-- An edge that has a way back closes a cycle. -/
theorem onCycle_of_edge (hv : v ∈ g.succ u) (hback : Reachable g.succ v u) : g.OnCycle u :=
  Relation.TransGen.head' hv hback

/-- There are no cycles if the edges lead from smaller to greater ranks. -/
theorem not_onCycle_of_rank (rank : String → Nat) (h : ∀ u, ∀ v ∈ g.succ u, rank u < rank v)
    (a : String) : ¬ g.OnCycle a := by
  intro hcycle
  have hlt : Relation.TransGen (· < ·) (rank a) (rank a) := hcycle.lift rank h
  rw [Relation.transGen_eq_self] at hlt
  exact Nat.lt_irrefl _ hlt

/-! ### The order -/

/-- Edges do not lead out of the graph. -/
theorem addrs_closed (g : Cfg) :
    ∀ x ∈ g.nodes.map Node.addr, ∀ y ∈ g.succ x, y ∈ g.nodes.map Node.addr :=
  fun _ _ _ hy => mem_sortedAddrs.1 (mem_sortedAddrs_of_succ hy).2

theorem postorder_eq_depthFirst {e : String} (he : g.entry? = some e) :
    g.toAddrMap.postorder = depthFirst g.succ (g.nodes.map Node.addr) [] [e] := by
  have hsucc : g.toAddrMap.succ = g.succ := funext g.succ_toAddrMap
  rw [AddrMap.postorder, entry?_toAddrMap, he, hsucc, addrs_toAddrMap]

/-- The order has exactly those addresses that can be reached from the entry. -/
theorem mem_postorder_iff : a ∈ g.toAddrMap.postorder ↔ g.Reached a := by
  cases he : g.entry? with
  | none =>
    rw [AddrMap.postorder, entry?_toAddrMap, he, Reached, he]
    simp
  | some e =>
    have hmem := mem_of_entry? he
    rw [postorder_eq_depthFirst he, mem_depthFirst_iff g.addrs_closed hmem, Reached, he]
    simp

/-- An edge leads to what comes before, or there is a way back. -/
theorem before_or_back (hu : g.Reached u) (hv : v ∈ g.succ u) :
    Before v u g.toAddrMap.postorder ∨ g.Reached v ∧ Reachable g.succ v u := by
  have hmem := mem_postorder_iff.2 hu
  obtain ⟨e, he, -⟩ := hu
  rw [← mem_postorder_iff]
  rw [postorder_eq_depthFirst he] at hmem ⊢
  exact before_or_reachable g.addrs_closed hmem hv

/-! ### The numbers -/

theorem numberPostorder_fst (g : Cfg) : g.numberPostorder.1 = g.toAddrMap.postorder.length := by
  rw [numberPostorder_eq, ← entryOrder_map_addrAt, List.length_map]

theorem orderNumber_of_reached (ha : g.Reached a) :
    g.orderNumber a = some (g.toAddrMap.postorder.idxOf a + 1) :=
  if_pos (mem_postorder_iff.2 ha)

theorem reached_of_orderNumber {n : Nat} (h : g.orderNumber a = some n) : g.Reached a := by
  by_contra hr
  have hnone : g.orderNumber a = none := if_neg (mt mem_postorder_iff.1 hr)
  cases h.symm.trans hnone

/-- Each address that is reached has a number of its own, and no number is left out. -/
theorem bijOn_orderNumber (g : Cfg) :
    Set.BijOn g.orderNumber {a | g.Reached a} (some '' Set.Icc 1 g.numberPostorder.1) := by
  rw [numberPostorder_fst]
  refine ⟨?_, ?_, ?_⟩
  · intro a ha
    have hplace := List.idxOf_lt_length_of_mem (mem_postorder_iff.2 ha)
    exact ⟨_, ⟨Nat.succ_pos _, hplace⟩, (orderNumber_of_reached ha).symm⟩
  · intro a ha b _ hab
    have hnumber := orderNumber_of_reached ha
    have hplace := orderNumber_eq_some_iff.1 hnumber
    rw [hab] at hnumber
    exact Option.some.inj (hplace.symm.trans (orderNumber_eq_some_iff.1 hnumber))
  · rintro _ ⟨n, ⟨hpos, hle⟩, rfl⟩
    obtain ⟨i, rfl⟩ := Nat.exists_eq_add_of_le' hpos
    have hplace := orderNumber_eq_some_iff.2 (List.getElem?_eq_getElem hle)
    exact ⟨_, reached_of_orderNumber hplace, hplace⟩

/-- The entry has the greatest number. -/
theorem orderNumber_entry {e : String} (he : g.entry? = some e) :
    g.orderNumber e = some g.numberPostorder.1 := by
  have hmem := mem_postorder_iff.2 ⟨e, he, .refl⟩
  have hlast := g.getLast?_postorder.trans he
  obtain ⟨i, hi⟩ := Nat.exists_eq_add_of_le' (List.length_pos_of_mem hmem)
  rw [List.getLast?_eq_getElem?, hi] at hlast
  rw [numberPostorder_fst, hi]
  exact orderNumber_eq_some_iff.2 hlast

/-- An edge leads to a smaller number, or there is a way back. -/
theorem orderNumber_edge {n : Nat} (hv : v ∈ g.succ u) (hu : g.orderNumber u = some n) :
    ∃ m, g.orderNumber v = some m ∧ (m < n ∨ Reachable g.succ v u) := by
  have hreached := reached_of_orderNumber hu
  obtain rfl := Option.some.inj ((orderNumber_of_reached hreached).symm.trans hu)
  rcases before_or_back hreached hv with h | ⟨hv', hback⟩
  · have hplaces := h.idxOf_lt (nodup_postorder _)
    exact ⟨_, orderNumber_of_reached (mem_postorder_iff.1 h.mem), .inl (Nat.succ_lt_succ hplaces)⟩
  · exact ⟨_, orderNumber_of_reached hv', .inr hback⟩

/-! ### The numbered graph -/

/-- **Numbered.** A graph with `count` numbers in postorder, which is otherwise the same. -/
structure Numbered (g : Cfg) (count : Nat) (h : Cfg) : Prop where
  /-- the nodes with their blocks are the same -/
  held : h.nodes.map (fun n => (n.addr, n.block)) = g.nodes.map fun n => (n.addr, n.block)
  /-- the edges with their conditions are the same -/
  edges : h.graph.edges = g.graph.edges
  /-- the entry is the same -/
  chosen : h.chosen = g.chosen
  /-- what is reached has the numbers from one to the count, each once -/
  reached : Set.BijOn h.number? {a | g.Reached a} (some '' Set.Icc 1 count)
  /-- the entry has the greatest number -/
  entry : ∀ e, g.entry? = some e → h.number? e = some count
  /-- nothing else has a number -/
  cleared : ∀ a, ¬ g.Reached a → h.number? a = none
  /-- an edge leads from a number to a smaller one, or there is a way back -/
  edge : ∀ u n, h.number? u = some n → ∀ v ∈ g.succ u,
    ∃ m, h.number? v = some m ∧ (m < n ∨ Reachable g.succ v u)

theorem numbered_numberPostorder (g : Cfg) :
    g.Numbered g.numberPostorder.1 g.numberPostorder.2 where
  held := by
    rw [numberPostorder_eq_mapNodes, nodes_mapNodes, List.map_map]
    rfl
  edges := (sameShape_numberPostorder g).edges
  chosen := (sameShape_numberPostorder g).chosen
  reached := (g.bijOn_orderNumber).congr fun a _ => (g.number?_numberPostorder a).symm
  entry := by
    intro e he
    rw [number?_numberPostorder]
    exact orderNumber_entry he
  cleared := by
    intro a ha
    rw [number?_numberPostorder]
    exact if_neg (mt mem_postorder_iff.1 ha)
  edge := by
    intro u n hu v hv
    rw [number?_numberPostorder] at hu ⊢
    exact orderNumber_edge hv hu

/-- A second numbering finds as many nodes and changes nothing. -/
theorem numberPostorder_again (g : Cfg) :
    g.numberPostorder.2.numberPostorder = g.numberPostorder := by
  refine Prod.ext ?_ g.numberPostorder_numberPostorder
  rw [numberPostorder_fst, numberPostorder_fst, (sameShape_numberPostorder g).postorder]

/-- The pass numbers the graph, and it reports a change if the number of an address is another
one. -/
theorem exists_on_numberPostorder {σ : Type} (b : Bench σ Cfg) :
    ∃ changed after, Pass.numberPostorder.run.on b = (.ok changed, after) ∧
      after.subject = b.subject.numberPostorder.2 ∧
      (changed = true ↔ ∃ a, b.subject.numberPostorder.2.number? a ≠ b.subject.number? a) := by
  obtain ⟨changed, log, hrun, hchanged⟩ := Stock.numberPostorder.actsAs b
  have hsame : b.subject.numberPostorder.2 = b.subject ↔
      ∀ a, b.subject.numberPostorder.2.number? a = b.subject.number? a := by
    rw [numberPostorder_eq_self_iff_number?]
    refine forall_congr' fun a => ?_
    rw [number?_numberPostorder, eq_comm]
  refine ⟨changed, _, hrun, rfl, ?_⟩
  rw [← not_forall, ← hsame]
  exact hchanged

/-- **Postorder numbers order the graph.** Whatever numbers there were, numbering gives the numbers
in postorder and changes nothing else; if nothing that is reached lies on a cycle, each edge leads
from a number to a smaller one. Numbering again changes nothing. The pass does not fail, does the
same, and reports whether the number of a node has changed. -/
theorem numbers_order_graph (g : Cfg) :
    g.Numbered g.numberPostorder.1 g.numberPostorder.2 ∧
    ((∀ a, g.Reached a → ¬ g.OnCycle a) →
      ∀ u n, g.numberPostorder.2.number? u = some n → ∀ v ∈ g.succ u,
        ∃ m, g.numberPostorder.2.number? v = some m ∧ m < n) ∧
    g.numberPostorder.2.numberPostorder = g.numberPostorder ∧
    ∀ (σ : Type) (b : Bench σ Cfg), b.subject = g →
      ∃ changed after, Pass.numberPostorder.run.on b = (.ok changed, after) ∧
        after.subject = g.numberPostorder.2 ∧
        (changed = true ↔ ∃ a, g.numberPostorder.2.number? a ≠ g.number? a) := by
  have hn := g.numbered_numberPostorder
  refine ⟨hn, ?_, g.numberPostorder_again, ?_⟩
  · intro hcycle u n hu v hv
    obtain ⟨m, hm, hlt | hback⟩ := hn.edge u n hu v hv
    · exact ⟨m, hm, hlt⟩
    · have hreached : g.Reached u := by
        rw [number?_numberPostorder] at hu
        exact reached_of_orderNumber hu
      exact absurd (onCycle_of_edge hv hback) (hcycle u hreached)
  · rintro σ b rfl
    exact exists_on_numberPostorder b

/-- Two ways from the entry to the exit, and an island that has a number. -/
def diamond : Cfg where
  graph :=
    { nodes := #[⟨"entry", none, none⟩, ⟨"then", none, some 9⟩, ⟨"else", none, none⟩,
      ⟨"exit", none, some 2⟩, ⟨"island", none, some 99⟩]
      edges := #[⟨⟨0⟩, ⟨1⟩, none⟩, ⟨⟨0⟩, ⟨2⟩, none⟩, ⟨⟨1⟩, ⟨3⟩, none⟩, ⟨⟨2⟩, ⟨3⟩, none⟩]
      source_lt := by decide
      target_lt := by decide }
  addrs_nodup := by decide
  ends_nodup := by decide

/-- The edges of the diamond lead on in this order. -/
def diamondOrder : List String := ["entry", "then", "else", "exit"]

theorem diamond_links : ∀ l ∈ diamond.links,
    diamondOrder.idxOf l.source < diamondOrder.idxOf l.target ∧ l.target ≠ "island" := by decide

theorem diamond_island : ¬ diamond.Reached "island" := by
  rintro ⟨e, he, hway⟩
  rcases Relation.ReflTransGen.cases_tail hway with rfl | ⟨u, -, hu⟩
  · exact absurd he (by decide +kernel)
  · obtain ⟨l, hl, -, htarget⟩ := mem_succ_iff.1 hu
    exact (diamond_links l hl).2 htarget

/-- The numbers go down from the entry to the exit, the island has none any more, and the pass
reports a change. -/
theorem diamond_numbered :
    ∃ n m, diamond.numberPostorder.2.number? "entry" = some diamond.numberPostorder.1 ∧
      diamond.numberPostorder.2.number? "else" = some n ∧ n < diamond.numberPostorder.1 ∧
      diamond.numberPostorder.2.number? "exit" = some m ∧ m < n ∧
      diamond.numberPostorder.2.number? "island" = none ∧
      ∃ after, Pass.numberPostorder.run.on (Bench.mk diamond () #[]) = (.ok true, after) := by
  obtain ⟨hn, hdown, -, hpass⟩ := numbers_order_graph diamond
  have hedges : ∀ u, ∀ v ∈ diamond.succ u, diamondOrder.idxOf u < diamondOrder.idxOf v := by
    intro u v hv
    obtain ⟨l, hl, rfl, rfl⟩ := mem_succ_iff.1 hv
    exact (diamond_links l hl).1
  have hcycle : ∀ a, diamond.Reached a → ¬ diamond.OnCycle a :=
    fun a _ => not_onCycle_of_rank _ hedges a
  have hentry := hn.entry "entry" rfl
  obtain ⟨n, helse, hlt⟩ := hdown hcycle "entry" _ hentry "else" (by decide +kernel)
  obtain ⟨m, hexit, hlt'⟩ := hdown hcycle "else" n helse "exit" (by decide +kernel)
  have hcleared := hn.cleared "island" diamond_island
  obtain ⟨changed, after, hrun, -, hchanged⟩ := hpass Unit ⟨diamond, (), #[]⟩ rfl
  have hstale : diamond.number? "island" = some 99 := by decide +kernel
  obtain rfl : changed = true := hchanged.2 ⟨"island", by rw [hcleared, hstale]; nofun⟩
  exact ⟨n, m, hentry, helse, hlt, hexit, hlt', hcleared, after, hrun⟩

end Cfg

end FlowText
