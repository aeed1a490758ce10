import FlowText.Proofs.Building
import FlowText.Proofs.DumpLines
import FlowText.Proofs.Mirrors

/-!
# Dump, then read

A graph that was built in any way is read back from its dump (`dump_reads_back`), if its dump says
all of it (`Cfg.Faithful`). What is read agrees with the graph (`Cfg.Agrees`): it gives the same
answers, and its instructions are the same with the same history.
-/

namespace FlowText

/-! ### Agreement -/

/-- **Agreement** of blocks. They are the same, and so is the history of each instruction. -/
structure Block.Agrees (c b : Block) : Prop where
  same : c.same b = true
  origins : List.Forall₂ (fun j i => List.Forall₂ (fun p q => p.same q = true) j.origins i.origins)
    c.insts b.insts

/-- **Agreement** of graphs. The second one answers as the first one does; their blocks agree. -/
structure Cfg.Agrees (g h : Cfg) : Prop where
  addrs : h.sortedAddrs = g.sortedAddrs
  block : ∀ a, Option.Rel Block.Agrees (h.block? a) (g.block? a)
  number : ∀ a, h.number? a = g.number? a
  succ : ∀ a, h.succ a = g.succ a
  pred : ∀ a, (h.pred a).Perm (g.pred a)
  cond : ∀ a b, h.edgeCond? a b = g.edgeCond? a b

theorem Block.Respells.agrees {c b : Block} (h : c.Respells b) : c.Agrees b := by
  have hall : ∀ {js is : List Inst}, List.Forall₂ Inst.Respells js is →
      js.isEqv is Inst.same = true ∧
        List.Forall₂ (fun j i => List.Forall₂ (fun p q => p.same q = true) j.origins i.origins)
          js is := by
    intro js is h
    induction h with
    | nil => exact ⟨rfl, .nil⟩
    | @cons j i js is hji _ ih =>
      have hop : j.same i = true := hji.op.same
      refine ⟨?_, .cons (hji.origins.imp fun p q hpq => hpq.same) ih.2⟩
      rw [List.isEqv, hop, ih.1]
      rfl
  obtain ⟨hsame, horigins⟩ := hall h.insts
  refine ⟨?_, horigins⟩
  rw [Block.same, h.addr, hsame]
  simp

theorem agrees_of_respells {c b : Option Block} (h : Option.Rel Block.Respells c b) :
    Option.Rel Block.Agrees c b := by
  cases h with
  | none => exact .none
  | some h => exact .some h.agrees

theorem Mirrors.agrees {g h : Cfg} (hm : Mirrors g.view h) : g.Agrees h := by
  have haddrs : h.sortedAddrs = g.sortedAddrs := hm.addrs
  -- neither graph has a node at any other address
  have hoff : ∀ {a}, a ∉ g.sortedAddrs → g.node? a = none ∧ h.node? a = none := fun ha =>
    ⟨Cfg.node?_eq_none ha, Cfg.node?_eq_none (haddrs ▸ ha)⟩
  have hsucc : ∀ a, h.succ a = g.succ a := Cfg.succ_congr haddrs hm.succ
  refine ⟨haddrs, fun a => ?_, fun a => ?_, hsucc, fun a => ?_, fun a b => ?_⟩
  · by_cases ha : a ∈ g.sortedAddrs
    · exact agrees_of_respells (hm.block a ha)
    · rw [Cfg.block?, Cfg.block?, (hoff ha).1, (hoff ha).2]
      exact .none
  · by_cases ha : a ∈ g.sortedAddrs
    · exact hm.number a ha
    · rw [Cfg.number?, Cfg.number?, (hoff ha).1, (hoff ha).2]
  · refine (List.perm_ext_iff_of_nodup (h.nodup_pred a) (g.nodup_pred a)).2 fun b => ?_
    rw [Cfg.mem_pred_iff, Cfg.mem_pred_iff, hsucc]
  · by_cases hb : b ∈ g.succ a
    · exact hm.cond a (Cfg.mem_sortedAddrs_of_succ hb).1 b hb
    · rw [Cfg.edgeCond?_eq_none hb, Cfg.edgeCond?_eq_none (hsucc a ▸ hb)]

/-- **Round trip.** A legible and unambiguous graph whose verbatim texts end plain is read back from
its dump. The entry is not dumped; it becomes the first address without predecessors, or else the
first of all. -/
theorem reads_back_of_legible {g : Cfg} (hl : g.view.Legible) (hc : g.view.Coherent)
    (hu : g.view.Unambiguous) (hp : g.view.EndsPlain) :
    ∃ text h, g.view.dump canonicalRenderer = .ok text ∧ (readDump text).result.1 = .ok h ∧
      g.Agrees h ∧ h.view.dump canonicalRenderer = .ok text ∧
      h.entry? = (g.sortedAddrs.find? fun a => (g.pred a).isEmpty).or g.sortedAddrs.head? := by
  obtain ⟨h, hread, hm, he⟩ := hl.read_back hc hu (hl.lines_dump_of_endsPlain hc hp)
  exact ⟨_, h, hl.dump, hread, hm.agrees, hm.dump hl, he⟩

/-! ### Built graphs -/

/-- **Faithful graphs.** The dump says all of the graph: every address is a label on one line, every
list of instructions is legible and looks like nothing else, and every condition is readable. -/
structure Cfg.Faithful (g : Cfg) : Prop where
  label : ∀ a ∈ g.sortedAddrs, IsLabel a ∧ '\n' ∉ a.toList
  block : ∀ a ∈ g.sortedAddrs, ∀ b ∈ g.block? a,
    LegibleList b.insts ∧ ¬ Shadows b.insts ∧ ∀ i ∈ b.insts, i.EndsPlain
  cond : ∀ a ∈ g.sortedAddrs, ∀ b ∈ g.succ a, ∀ c ∈ g.edgeCond? a b, c.Readable

theorem Cfg.Faithful.legible {g : Cfg} (h : g.Faithful) (hb : g.Built)
    (hn : g.nodeCount < wordLimit) : g.view.Legible where
  one_line a ha := (h.label a ha).2
  number_lt a _ k hk := by
    obtain ⟨n, hnode, hnk⟩ := Option.bind_eq_some_iff.1 hk
    obtain ⟨hm, -⟩ := Cfg.node?_eq_some_iff.1 hnode
    have hle : g.nodes.length < wordLimit := by rwa [Cfg.nodes, Array.length_toList]
    exact ((hb n hm).number k hnk).elim id fun hkn => Nat.lt_of_le_of_lt hkn hle
  cond := h.cond
  block a ha b hb := (h.block a ha b hb).1

/-- **Dump, then read.** However a graph was built: if it is faithful, its dump is read as a graph
that agrees with it and has the same dump. A machine word counts its nodes, as it does for any graph
in memory. -/
theorem dump_reads_back (changes : List Change) (hf : (Cfg.build changes).Faithful)
    (hn : (Cfg.build changes).nodeCount < wordLimit) :
    ∃ text h, (Cfg.build changes).view.dump canonicalRenderer = .ok text ∧
      (readDump text).result.1 = .ok h ∧ (Cfg.build changes).Agrees h ∧
      h.view.dump canonicalRenderer = .ok text ∧
      h.entry? = ((Cfg.build changes).sortedAddrs.find? fun a =>
        ((Cfg.build changes).pred a).isEmpty).or (Cfg.build changes).sortedAddrs.head? := by
  have hb := Cfg.built_build changes
  exact reads_back_of_legible (hf.legible hb hn) (coherent_view fun n hm => (hb n hm).block_addr)
    ⟨fun a ha => (hf.label a ha).1, fun a ha b hb => (hf.block a ha b hb).2.1⟩
    fun a ha b hb => (hf.block a ha b hb).2.2

/-- An instruction with an earlier stage, and a line that looks like an earlier stage of what
follows. -/
def loopInsts : List Inst :=
  [{ Inst.assign (.reg "r1") (.value 1) with origins := [(Inst.goto (.addr "end")).toOperation] },
    .literal "// $r2 = 0x1"]

/-- A loop with an exit. One of the changes is refused. -/
def loopChanges : List Change :=
  [.block { addr := "loop", insts := loopInsts },
    .edge "loop" "loop" (some (.simple (.reg "r1") .eq (.value 0))), .edge "loop" "end" none,
    .entry "nowhere", .number "loop" (some 7)]

theorem legible_loopInsts : LegibleList loopInsts := by
  refine ⟨fun i hi => ?_, .cons_cons (fun hd => ?_) (.singleton _)⟩
  · rcases List.mem_cons.1 hi with rfl | hi
    · exact ⟨.inr ⟨_, rfl, .goto (by decide)⟩, .inl (.assign (by decide) (by decide))⟩
    · obtain rfl := List.mem_singleton.1 hi
      have hline : IsVerbatim "// $r2 = 0x1" :=
        ⟨by decide, by decide, fun i => ofText_ne_ok_of_slash rfl⟩
      exact ⟨.inl rfl, .inr ⟨_, rfl, hline, fun hne => absurd rfl hne⟩⟩
  · cases hd.1

theorem faithful_loop : (Cfg.build loopChanges).Faithful := by
  have haddrs : (Cfg.build loopChanges).nodes.map Node.addr = ["loop", "end"] := by decide +kernel
  have hmem : ∀ a ∈ (Cfg.build loopChanges).sortedAddrs, a = "loop" ∨ a = "end" := by
    intro a ha
    rw [Cfg.mem_sortedAddrs, haddrs] at ha
    simpa using ha
  refine ⟨fun a ha => ?_, fun a ha b hb => ?_, fun a ha b hb => ?_⟩
  · rcases hmem a ha with rfl | rfl <;> decide
  · have hblock : ∀ b ∈ (Cfg.build loopChanges).block? a, b.insts = loopInsts := by
      rcases hmem a ha with rfl | rfl <;> decide +kernel
    rw [hblock b hb]
    exact ⟨legible_loopInsts, by decide, by decide⟩
  · have hsucc : ∀ b ∈ (Cfg.build loopChanges).succ a,
        ∀ c ∈ (Cfg.build loopChanges).edgeCond? a b, c.Readable := by
      rcases hmem a ha with rfl | rfl <;> decide +kernel
    exact hsucc b hb

/-- The loop is read back from its dump. -/
theorem loop_reads_back :
    (Cfg.build loopChanges).Faithful ∧ (Cfg.build loopChanges).nodeCount < wordLimit ∧
      ∃ text h, (Cfg.build loopChanges).view.dump canonicalRenderer = .ok text ∧
        (readDump text).result.1 = .ok h ∧ (Cfg.build loopChanges).Agrees h := by
  have hn : (Cfg.build loopChanges).nodeCount < wordLimit := by decide +kernel
  obtain ⟨text, h, hd, hr, ha, -⟩ := dump_reads_back loopChanges faithful_loop hn
  exact ⟨faithful_loop, hn, text, h, hd, hr, ha⟩

end FlowText
