import FlowText.Proofs.Showing
import FlowText.Proofs.StockPasses

/-!
# Hidden and removed instructions

To leave instructions out when a graph is shown is to take them out before: the blocks that are left
have the same texts (`Block.shown_retain`), and nothing else in a dump or a drawing asks for
instructions (`View.dump_retain`, `Cfg.draw_retain`). So what is dead may be hidden or removed, and
what is shown is the same, or else the error is (`hiding_dead_is_removing_dead`).
-/

namespace FlowText

variable {σ : Type}

/-! ### Renderers that leave instructions out -/

/-- The renderer that leaves out whatever lacks a property. -/
def Renderer.only (keep : Inst → Bool) (render : Renderer) : Renderer := fun i =>
  if keep i then render i else .ok none

/-- What a renderer leaves out may as well not be there. -/
theorem Block.shown_retain (keep : Inst → Bool) (b : Block) (render : Renderer) :
    (b.retain keep).shown render = b.shown (Renderer.only keep render) := by
  obtain ⟨addr, insts⟩ := b
  induction insts with
  | nil => rfl
  | cons i insts ih =>
    rw [shown_cons, ← ih, retain, retain]
    cases hi : keep i with
    | true => rw [List.filter_cons_of_pos hi, shown_cons, Renderer.only, if_pos hi]
    | false =>
      rw [List.filter_cons_of_neg (by simp [hi]), Renderer.only, if_neg (by simp [hi])]
      cases (Block.mk addr (insts.filter keep)).shown render <;> rfl

/-- Dead instructions are left out before anything else is asked of them. -/
theorem Layout.render_omitDead (style : Style) :
    Layout.render ⟨style, true⟩ = Renderer.only (fun i => !i.isDead)
      (Layout.render ⟨style, false⟩) := by
  funext i
  rw [render, Renderer.only, render]
  cases i.isDead <;> rfl

/-! ### Graphs whose blocks are changed -/

namespace View

/-- The view in which blocks keep the instructions that have a property. -/
def retain (keep : Inst → Bool) (v : View) : View :=
  { v with block? := fun addr => (v.block? addr).map (Block.retain keep) }

theorem block?_retain (keep : Inst → Bool) (v : View) (addr : String) :
    (v.retain keep).block? addr = (v.block? addr).map (Block.retain keep) := rfl

theorem bodyText_retain (keep : Inst → Bool) (v : View) (render : Renderer) (addr : String) :
    (v.retain keep).bodyText render addr = v.bodyText (render.only keep) addr := by
  rw [bodyText, bodyText, block?_retain]
  cases v.block? addr with
  | none => rfl
  | some b => exact congrArg (Except.map unlines) (b.shown_retain keep render)

theorem dump_retain (keep : Inst → Bool) (v : View) (render : Renderer) :
    (v.retain keep).dump render = v.dump (render.only keep) := by
  have hentry : (v.retain keep).entry render = v.entry (render.only keep) := by
    funext addr
    rw [entry, entry, bodyText_retain]
    rfl
  rw [dump_eq_entries, dump_eq_entries, hentry]
  rfl

theorem insts_retain (keep : Inst → Bool) (v : View) :
    (v.retain keep).insts = v.insts.filter keep := by
  rw [insts, insts, List.filter_flatMap]
  refine List.flatMap_congr fun addr _ => ?_
  rw [instsAt, block?_retain, instsAt]
  cases v.block? addr <;> rfl

end View

namespace Cfg

/-- A dump asks for the blocks that were changed, and otherwise gets the same answers. -/
theorem view_retain (g : Cfg) (keep : Inst → Bool) :
    (g.mapBlocks (Block.retain keep)).view = g.view.retain keep := by
  have hs := sameShape_mapBlocks g (Block.retain keep)
  rw [view, hs.sortedAddrs, funext hs.pred, funext hs.succ, funext₂ hs.edgeCond?,
    funext (block?_mapBlocks g _), funext (number?_mapBlocks g _)]
  rfl

theorem drawNode_retain (g : Cfg) (keep : Inst → Bool) (render : Renderer) (v : NodeId) :
    (g.mapBlocks (Block.retain keep)).drawNode render v =
      g.drawNode (Renderer.only keep render) v := by
  have hentry : (g.mapBlocks (Block.retain keep)).entryId? = g.entryId? := by
    simp [entryId?, mapBlocks, mapNodes, isEmpty, Digraph.mapNodes, Digraph.isEmpty]
  have hnode : (g.mapBlocks (Block.retain keep)).nodeAt? v =
      (g.nodeAt? v).map fun n => { n with block := n.block.map (Block.retain keep) } := by
    rw [nodeAt?_eq, nodeAt?_eq, mapBlocks, nodes_mapNodes, List.getElem?_map]
  rw [drawNode, drawNode, hnode]
  cases g.nodeAt? v with
  | none => rfl
  | some n =>
    rw [Option.map_some]
    dsimp only
    rw [fill, fill, heading, heading, hentry]
    cases n.block with
    | none => rfl
    | some b =>
      rw [Option.map_some, Option.mapM_some, Option.mapM_some, b.shown_retain]
      rfl

theorem draw_retain (g : Cfg) (keep : Inst → Bool) (title : Option String) (render : Renderer) :
    (g.mapBlocks (Block.retain keep)).draw title render =
      g.draw title (Renderer.only keep render) := by
  have hs := sameShape_mapBlocks g (Block.retain keep)
  rw [draw, draw, hs.sortedIds, funext (g.drawNode_retain keep render)]
  rfl

end Cfg

/-! ### What is dead -/

/-- **To hide what is dead is to remove it.** The pass that removes dead instructions does not fail,
and leaves a graph whose dump is that of the graph before, with dead instructions hidden, in either
style. So are its drawings. If an instruction that is not dead is refused, both show the error of
the first of these; dead instructions are never asked, and where no other one is refused there is a
text. -/
theorem hiding_dead_is_removing_dead (style : Style) (b : Bench σ Cfg) :
    ∃ changed b', (Pass.removeDead (σ := σ)).run.on b = (.ok changed, b') ∧
      b'.subject = b.subject.mapBlocks (Block.retain fun i => !i.isDead) ∧
      b.subject.view.dump (Layout.render ⟨style, true⟩) =
        b'.subject.view.dump (Layout.render ⟨style, false⟩) ∧
      FailsAs (b.subject.view.dump (Layout.render ⟨style, true⟩)) (Layout.render ⟨style, false⟩)
        (b.subject.view.insts.filter fun i => !i.isDead) ∧
      ∀ title,
        b.subject.draw title (Layout.render ⟨style, true⟩) =
          b'.subject.draw title (Layout.render ⟨style, false⟩) ∧
        FailsAs (b.subject.draw title (Layout.render ⟨style, true⟩)) (Layout.render ⟨style, false⟩)
          (b.subject.view.insts.filter fun i => !i.isDead) := by
  obtain ⟨changed, log, hrun, -⟩ := Stock.actsAs .removeDead b
  have hinsts := View.insts_retain (fun i => !i.isDead) b.subject.view
  rw [← Cfg.view_retain] at hinsts
  refine ⟨changed, _, hrun, rfl, ?_, ?_, fun title => ⟨?_, ?_⟩⟩
  · rw [Layout.render_omitDead, ← View.dump_retain, ← Cfg.view_retain]
    rfl
  · rw [Layout.render_omitDead, ← View.dump_retain, ← Cfg.view_retain, ← hinsts]
    exact View.dump_failsAs _ _
  · rw [Layout.render_omitDead, ← Cfg.draw_retain]
    rfl
  · rw [Layout.render_omitDead, ← Cfg.draw_retain, ← hinsts]
    exact Cfg.draw_failsAs _ _ _

/-- A block where a dead jump leads nowhere. -/
def strayBlock : Block where
  addr := "a"
  insts := [{ (Inst.goto (.reg "x")).markDead with args := [] }, .ret]

/-- The stray jump cannot be shown, but it can be hidden or removed. -/
theorem stray_jump_hidden :
    ((Cfg.build [.block strayBlock]).view.dump (Layout.render ⟨.canonical, false⟩)).isOk = false ∧
      ∃ changed b' text,
        (Pass.removeDead (σ := Unit)).run.on ⟨.build [.block strayBlock], (), #[]⟩ =
          (.ok changed, b') ∧
        (Cfg.build [.block strayBlock]).view.dump (Layout.render ⟨.canonical, true⟩) = .ok text ∧
        b'.subject.view.dump (Layout.render ⟨.canonical, false⟩) = .ok text := by
  obtain ⟨changed, b', hrun, -, hdump, hfails, -⟩ :=
    hiding_dead_is_removing_dead .canonical (⟨.build [.block strayBlock], (), #[]⟩ : Bench Unit Cfg)
  have hlive : ((Cfg.build [.block strayBlock]).view.insts.filter fun i => !i.isDead) = [.ret] := by
    decide +kernel
  have hret : ∃ shown, Layout.render ⟨.canonical, false⟩ .ret = .ok shown :=
    ⟨some "return", by decide +kernel⟩
  obtain ⟨text, htext⟩ := hfails.exists_ok (by rw [hlive, List.forall_mem_singleton]; exact hret)
  exact ⟨by decide +kernel, changed, b', text, hrun, htext, hdump ▸ htext⟩

end FlowText
