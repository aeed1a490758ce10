import FlowText.Drawing
import FlowText.Proofs.DumpEntries
import FlowText.Proofs.Links

/-!
# What is shown of a graph

A dump and a drawing are put together from the texts of the instructions, block by block in the
natural order of the addresses, and nothing else in them can be refused. So both of them fail as
these instructions do (`View.dump_failsAs`, `Cfg.draw_failsAs`): with the same error, or not at all.
-/

namespace FlowText

theorem Block.shown_failsAs (b : Block) (render : Renderer) :
    FailsAs (b.shown render) render b.insts :=
  (FailsAs.mapM render b.insts).map fun texts => texts.filterMap id

namespace View

/-- The instructions at an address. -/
def instsAt (v : View) (addr : String) : List Inst := (v.block? addr).elim [] Block.insts

/-- All instructions, in the order in which they are dumped. -/
def insts (v : View) : List Inst := v.addrs.flatMap v.instsAt

theorem entry_failsAs (v : View) (render : Renderer) (addr : String) :
    FailsAs (v.entry render addr) render (v.instsAt addr) := by
  refine .map ?_ _
  rw [bodyText, instsAt]
  cases v.block? addr with
  | none => exact .of_ok _ _
  | some b => exact (b.shown_failsAs render).map unlines

theorem dump_failsAs (v : View) (render : Renderer) : FailsAs (v.dump render) render v.insts := by
  rw [dump_eq_entries]
  exact ((FailsAs.mapM _ _).map _).flatMap (v.entry_failsAs render)

end View

namespace Cfg

theorem instsAt_addrAt {g : Cfg} {v : NodeId} (h : v ∈ g.sortedIds) :
    g.view.instsAt (g.addrAt v) = ((g.nodeAt? v).bind Node.block).elim [] Block.insts := by
  change (g.block? (g.addrAt v)).elim [] Block.insts = _
  rw [block?, node?_addrAt (lt_of_mem_sortedIds h)]

theorem insts_view (g : Cfg) :
    g.view.insts = g.sortedIds.flatMap fun v =>
      ((g.nodeAt? v).bind Node.block).elim [] Block.insts := by
  change (g.sortedIds.map g.addrAt).flatMap g.view.instsAt = _
  rw [List.flatMap_map]
  exact List.flatMap_congr fun v hv => instsAt_addrAt hv

theorem drawNode_failsAs (g : Cfg) (render : Renderer) (v : NodeId) :
    FailsAs (g.drawNode render v) render (((g.nodeAt? v).bind Node.block).elim [] Block.insts) := by
  rw [drawNode]
  cases g.nodeAt? v with
  | none => exact .of_ok _ _
  | some n =>
    dsimp only [Option.bind_some]
    cases n.block with
    | none => exact .of_ok _ _
    | some b =>
      have hshown : discard (b.shown render) = _ := b.shown_failsAs render
      rw [FailsAs, Option.elim_some, ← hshown, Option.mapM_some]
      cases b.shown render <;> rfl

theorem draw_failsAs (g : Cfg) (title : Option String) (render : Renderer) :
    FailsAs (g.draw title render) render g.view.insts := by
  rw [insts_view]
  exact ((FailsAs.mapM _ _).map _).flatMap (g.drawNode_failsAs render)

end Cfg

end FlowText
