import FlowText.Proofs.Connecting
import FlowText.Proofs.Results
import FlowText.Proofs.Sections

/-!
# The graph of a text

A text that is read has one outline, and all of the graph can be read off its sections: the nodes
with their identifiers and numbers, the edges with their conditions, and the entry
(`Outline.Builds`, `outline_builds`). The instructions of each block take up the lines of its
section (`blocks_take_their_lines`).
-/

namespace FlowText

/-! ### What the outline says -/

/-- The exits on the last line of a section. There are none if they cannot be read. -/
def Section.exitList (s : Section) : List Exit :=
  match Exits.read s.exits.toList with
  | .ok exits => exits
  | .error _ => []

/-- Where the exits of a section lead, in the order of the line. -/
def Section.targets (s : Section) : List String := s.exitList.map Prod.snd

namespace Outline

/-- Where any exits lead, in the order of the text. -/
def targets (o : Outline) : List String := o.sections.flatMap Section.targets

/-- The labels in the order of the text, and then the targets that are no labels, in the order in
which they are first mentioned. -/
def addrs (o : Outline) : List String :=
  o.labels ++ (o.targets.filter (· ∉ o.labels)).eraseDups

/-- **Builds.** The graph is what the outline says. -/
structure Builds (o : Outline) (g : Cfg) : Prop where
  distinct : o.labels.Nodup
  exits : ∀ s ∈ o.sections, Exits.read s.exits.toList = .ok s.exitList
  /-- the nodes are numbered in the order of `addrs` -/
  nodes : ∀ a v, g.nodeId? a = some v ↔ o.addrs[v.index]? = some a
  nodeCount : g.nodeCount = o.addrs.length
  /-- a label has the last number in front of it -/
  number : ∀ s ∈ o.sections, g.number? s.addr = s.number?
  /-- nothing but a name is known of other targets -/
  unlabelled : ∀ a ∉ o.labels, g.number? a = none ∧ g.block? a = none ∧ g.succ a = []
  /-- a target that is repeated keeps its first place -/
  succ : ∀ s ∈ o.sections, g.succ s.addr = s.targets.eraseDups
  /-- an edge has the condition of the last exit with its target -/
  cond : ∀ s ∈ o.sections, ∀ b ∈ g.succ s.addr, ∃ x, lastExit? s.exitList b = some x ∧
    x.1.mapM Cond.ofText = .ok (g.edgeCond? s.addr b)
  /-- there are no other edges -/
  edgeCount : g.edgeCount = (o.labels.map fun a => (g.succ a).length).sum
  pred : ∀ b, g.pred b = o.labels.filter fun a => b ∈ g.succ a
  /-- the entry is the first label that nothing leads to, or else the first one -/
  entry : g.entry? = (o.labels.find? fun a => (g.pred a).isEmpty).or o.labels.head?

end Outline

/-! ### Sections and entries -/

namespace Section.ReadAs

variable {s : Section} {e : Entry}

theorem exitList (h : s.ReadAs e) : s.exitList = e.exits := by
  rw [Section.exitList, h.exits]

theorem targets (h : s.ReadAs e) : s.targets = e.targets := by
  rw [Section.targets, h.exitList, Entry.targets]

end Section.ReadAs

theorem Cfg.nodeId?_eq_iff_addrs {g : Cfg} {a : String} {v : NodeId} :
    g.nodeId? a = some v ↔ (g.nodes.map Node.addr)[v.index]? = some a := by
  rw [Cfg.nodeId?_eq_some_iff, List.getElem?_map, Option.map_eq_some_iff]

/-- Edges may be counted at the addresses that they leave. -/
theorem Cfg.edgeCount_eq_sum_of_nodup {g : Cfg} {addrs : List String} (hn : addrs.Nodup)
    (h : ∀ a, g.succ a ≠ [] → a ∈ addrs) :
    g.edgeCount = (addrs.map fun a => (g.succ a).length).sum := by
  have hsource : ∀ l ∈ g.links, l.source ∈ addrs := fun l hl =>
    h l.source (List.ne_nil_of_mem (Cfg.mem_succ_iff.2 ⟨l, hl, rfl, rfl⟩))
  rw [← Cfg.length_links, ← sum_length_filter_source hn hsource]
  refine congrArg List.sum (List.map_congr_left fun a _ => ?_)
  rw [Cfg.succ_eq, List.length_map]

theorem Entry.condOf_eq_ok_iff {e : Entry} {x : Exit} {c : Option Cond} :
    e.condOf x = .ok c ↔ x.1.mapM Cond.ofText = .ok c := by
  rw [Entry.condOf]
  cases x.1 with
  | none => exact Iff.of_eq (by simp [pure, Except.pure])
  | some t =>
    rw [Option.mapM_some, Option.mapM_some, onLine]
    cases Cond.ofText t with
    | ok d => simp [Except.mapError]
    | error err => simp [Except.mapError]

namespace Entry.GraphOf

variable {entries : List Entry} {g : Cfg}

theorem node?_of_mem (h : GraphOf entries g) {e : Entry} (he : e ∈ entries) :
    g.node? e.addr = some e.node := by
  refine Cfg.node?_eq_some_iff.2 ⟨?_, rfl⟩
  rw [h.nodes]
  exact List.mem_append_left _ (List.mem_map_of_mem he)

/-- An address without an entry has a bare node, or none. -/
theorem bare_of_not_mem (h : GraphOf entries g) {a : String} (ha : a ∉ entries.map Entry.addr) :
    g.number? a = none ∧ g.block? a = none := by
  rw [Cfg.number?, Cfg.block?]
  cases hn : g.node? a with
  | none => exact ⟨rfl, rfl⟩
  | some n =>
    obtain ⟨hm, rfl⟩ := Cfg.node?_eq_some_iff.1 hn
    rw [h.nodes] at hm
    rcases List.mem_append.1 hm with hm | hm
    · obtain ⟨e, he, rfl⟩ := List.mem_map.1 hm
      exact absurd (List.mem_map_of_mem he) ha
    · obtain ⟨b, -, rfl⟩ := List.mem_map.1 hm
      exact ⟨rfl, rfl⟩

/-- **The outline builds the graph** of the entries that were read from it. -/
theorem builds (h : GraphOf entries g) (hn : (entries.map Entry.addr).Nodup) {o : Outline}
    (ho : List.Forall₂ Section.ReadAs o.sections entries) : o.Builds g := by
  have hlabels : o.labels = entries.map Entry.addr :=
    map_eq_map_of_forall₂ ho fun _ _ hse => hse.addr.symm
  have htargets : o.targets = entries.flatMap Entry.targets := by
    rw [Outline.targets, List.flatMap_def, List.flatMap_def,
      map_eq_map_of_forall₂ ho fun _ _ hse => hse.targets]
  have haddrs : g.nodes.map Node.addr = o.addrs := by
    rw [h.nodes, Outline.addrs, hlabels, htargets, List.map_append, List.map_map, List.map_map]
    exact congrArg (_ ++ ·) (List.map_id _)
  have hsucc : ∀ s ∈ o.sections, g.succ s.addr = s.targets.eraseDups := by
    intro s hs
    obtain ⟨e, he, hse⟩ := exists_mem_of_forall₂ ho hs
    rw [← hse.addr, h.succ e he, hse.targets]
  refine ⟨hlabels ▸ hn, fun s hs => ?_, fun a v => ?_, ?_, fun s hs => ?_, fun a ha => ?_, hsucc,
    fun s hs b hb => ?_, ?_, fun b => ?_, ?_⟩
  · obtain ⟨e, -, hse⟩ := exists_mem_of_forall₂ ho hs
    rw [hse.exits, hse.exitList]
  · rw [Cfg.nodeId?_eq_iff_addrs, haddrs]
  · rw [← haddrs, List.length_map]
    rfl
  · obtain ⟨e, he, hse⟩ := exists_mem_of_forall₂ ho hs
    rw [← hse.addr, Cfg.number?, h.node?_of_mem he, ← hse.number]
    rfl
  · rw [hlabels] at ha
    obtain ⟨hnumber, hblock⟩ := h.bare_of_not_mem ha
    exact ⟨hnumber, hblock, h.succ_nil a ha⟩
  · obtain ⟨e, he, hse⟩ := exists_mem_of_forall₂ ho hs
    have hmem : b ∈ e.exits.map Prod.snd := by
      rw [hsucc s hs, List.mem_eraseDups, hse.targets] at hb
      exact hb
    obtain ⟨y, hy, rfl⟩ := List.mem_map.1 hmem
    obtain ⟨x, hx⟩ : ∃ x, lastExit? e.exits y.2 = some x := by
      rw [← Option.isSome_iff_exists, lastExit?, List.find?_isSome]
      exact ⟨y, List.mem_reverse.2 hy, beq_self_eq_true _⟩
    rw [hse.exitList, ← hse.addr]
    exact ⟨x, hx, Entry.condOf_eq_ok_iff.1 (h.cond e he y.2 x hx)⟩
  · rw [hlabels]
    refine Cfg.edgeCount_eq_sum_of_nodup hn fun a ha => ?_
    by_contra hne
    rw [h.succ_nil a hne] at ha
    exact ha rfl
  · rw [h.pred b, hlabels, List.filter_map]
    refine congrArg _ (List.filter_congr fun e he => ?_)
    rw [Function.comp_apply, h.succ e he]
    simp only [List.mem_eraseDups]
  · rw [h.entry, Entry.first?, hlabels]

end Entry.GraphOf

/-! ### Texts -/

/-- **What is read of a text**: its outline, the entries of the sections, and their graph. -/
theorem exists_read {text : String} {g : Cfg} (h : (readDump text).result.1 = .ok g) :
    ∃ (o : Outline) (entries : List Entry), o.IsOf text ∧ (entries.map Entry.addr).Nodup ∧
      List.Forall₂ Section.ReadAs o.sections entries ∧ Entry.GraphOf entries g := by
  rw [result_readDump] at h
  obtain ⟨r, hr, h₁⟩ := ok_of_bind h
  obtain ⟨entries, hentries, hgraph⟩ := ok_of_bind h₁
  obtain ⟨o, ho, hread⟩ := exists_outline hr hentries
  have hn := nodup_of_finish hr hentries
  exact ⟨o, entries, ho, hn, hread, Entry.graphOf_of_graph hn hgraph⟩

theorem Outline.IsOf.unique {text : String} {o o' : Outline} (h : o.IsOf text) (h' : o'.IsOf text) :
    o' = o :=
  Outline.lines_injective (h'.trans h.symm)

/-- The lines of `forkText` behind the first one, which is blank. -/
def forkLines : String :=
  "// DFS#: 1\na:\n// return\nsome text\n// return\n" ++
    "Exits: [(None, 'b'), ('($r1 == 0x0)', 'b')]\n" ++ "b:\n    None\nExits: []\n"

/-- A text with a number, an exit that is given again, an origin that is kept, and a missing
block. -/
def forkText : String := "" ++ "\n" ++ forkLines

theorem exists_read_forkText : ∃ g, (readDump forkText).result.1 = .ok g := by
  have hcount : (readDump forkText).result.1.map Cfg.nodeCount = .ok 2 := by decide +kernel
  obtain ⟨g, hg, -⟩ := ok_of_map hcount
  exact ⟨g, hg⟩

/-- **What a text builds.** A text that is read has one outline, and the outline builds the graph.
An idle line outside of the blocks may be any other idle line, whether the text is read or not. -/
theorem outline_builds (text : String) :
    (∀ g, (readDump text).result.1 = .ok g →
      ∃ o : Outline, o.IsOf text ∧ (∀ o' : Outline, o'.IsOf text → o' = o) ∧ o.Builds g) ∧
    ∀ text' before line line' after, textLines text = before ++ line :: after →
      textLines text' = before ++ line' :: after → IsIdle line → IsIdle line' → ¬ InBlock before →
      (readDump text').result.1 = (readDump text).result.1 := by
  refine ⟨fun g hg => ?_, fun _ _ _ _ _ => result_readDump_idle⟩
  obtain ⟨o, entries, ho, hn, hread, hgraph⟩ := exists_read hg
  exact ⟨o, ho, fun _ => ho.unique, hgraph.builds hn hread⟩

/-- The outline of the fork builds its graph. The blank line in front may as well name
predecessors. -/
theorem fork_is_built :
    ∃ g, (readDump forkText).result.1 = .ok g ∧
      (∃ o : Outline, o.IsOf forkText ∧ (∀ o' : Outline, o'.IsOf forkText → o' = o) ∧ o.Builds g) ∧
      (readDump ("// Predecessors: []" ++ "\n" ++ forkLines)).result.1 =
        (readDump forkText).result.1 := by
  obtain ⟨g, hg⟩ := exists_read_forkText
  have hblank : textLines forkText = [] ++ "" :: textLines forkLines :=
    textLines_append_feed (by decide) (by decide) forkLines
  have hpred : textLines ("// Predecessors: []" ++ "\n" ++ forkLines) =
      [] ++ "// Predecessors: []" :: textLines forkLines :=
    textLines_append_feed (by decide) (by decide) forkLines
  obtain ⟨hbuilds, hidle⟩ := outline_builds forkText
  exact ⟨g, hg, hbuilds g hg, hidle _ _ _ _ _ hblank hpred (by decide) (by decide) id⟩

/-- **The lines of a block.** The placeholder at its head stands alone, and there is no block. Any
other lines are taken up by the instructions of the block, in the only way in which they can be. -/
theorem blocks_take_their_lines {text : String} {g : Cfg} (h : (readDump text).result.1 = .ok g) :
    ∃ o : Outline, o.IsOf text ∧ (∀ o' : Outline, o'.IsOf text → o' = o) ∧
      ∀ s ∈ o.sections, ∃ n, g.node? s.addr = some n ∧
        (s.body.head? = some Dump.placeholder → s.body.length = 1 ∧ n.block = none) ∧
        (s.body.head? ≠ some Dump.placeholder →
          ∃ insts, n.block = some ⟨s.addr, insts⟩ ∧ Takes insts s.body ∧
            (∀ insts', Takes insts' s.body → insts' = insts) ∧
            s.body.length = (insts.map fun i => if i.origins = [] then 1 else 2).sum) := by
  obtain ⟨o, entries, ho, -, hread, hgraph⟩ := exists_read h
  refine ⟨o, ho, fun _ => ho.unique, fun s hs => ?_⟩
  obtain ⟨e, he, hse⟩ := exists_mem_of_forall₂ hread hs
  refine ⟨e.node, hse.addr ▸ hgraph.node?_of_mem he, ?_⟩
  have hinsts := hse.insts
  rw [Entry.node, hse.addr]
  generalize e.insts = found, s.body = lines at hinsts
  cases hinsts with
  | missing => exact ⟨fun _ => ⟨rfl, rfl⟩, fun hne => absurd rfl hne⟩
  | @insts insts lines hhead htakes =>
    exact ⟨fun hp => absurd hp hhead, fun _ => ⟨insts, rfl, htakes, fun _ => htakes.unique,
      htakes.length_eq⟩⟩

/-- The blocks of the fork take up their lines. -/
theorem fork_blocks_take_their_lines :
    ∃ g, (readDump forkText).result.1 = .ok g ∧
      ∃ o : Outline, o.IsOf forkText ∧ (∀ o' : Outline, o'.IsOf forkText → o' = o) ∧
        ∀ s ∈ o.sections, ∃ n, g.node? s.addr = some n ∧
          (s.body.head? = some Dump.placeholder → s.body.length = 1 ∧ n.block = none) ∧
          (s.body.head? ≠ some Dump.placeholder →
            ∃ insts, n.block = some ⟨s.addr, insts⟩ ∧ Takes insts s.body ∧
              (∀ insts', Takes insts' s.body → insts' = insts) ∧
              s.body.length = (insts.map fun i => if i.origins = [] then 1 else 2).sum) := by
  obtain ⟨g, hg⟩ := exists_read_forkText
  exact ⟨g, hg, blocks_take_their_lines hg⟩

end FlowText
