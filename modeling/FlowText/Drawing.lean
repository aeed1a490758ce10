import FlowText.Cfg
import FlowText.Text.Label

/-!
# Drawings

A graph as a text in the DOT language. Behind a header stand a line for each node, a blank line, and
a line for each edge:

    B0 [label="blk1 (entry)\lgoto blk2\l", style=filled, fillcolor=lightgreen];
    B0 -> B1 [label="($r1 == 0x0)", color="darkgreen"];

* Nodes stand in the natural order of their addresses and show their instructions. The entry is
  green, and a node that leads nowhere is red.
* Edges stand in the order of their sources, and those of one source in the order of addition.
* `Cfg.draw` — the drawing of a graph. It exists if the renderer refuses no instruction.
-/

namespace FlowText

namespace Drawing

/-- The name of a node. -/
def name (v : NodeId) : String := s!"B{v.index}"

/-- A quoted label. -/
def label (escaped : String) : String := "label=\x22" ++ escaped ++ "\x22"

/-- A line of a label, which is set to the left. -/
def leftLine (text : String) : String := Label.escape text ++ "\\l"

/-- What stands in front of the nodes. -/
def header (title : Option String) : String :=
  let titleLine := match title with
    | some t => "    " ++ label ("CFG: " ++ Label.escape t) ++ ";\n"
    | none => ""
  "digraph CFG \x7b\n" ++ titleLine ++
    "    labelloc=t;\n    node [shape=box, fontname=\x22Courier\x22, fontsize=10];\n" ++
    "    edge [fontname=\x22Courier\x22, fontsize=9];\n\n"

/-- What fills a node. -/
inductive Fill where
  | entry
  | exit
  | plain
  deriving DecidableEq, Repr

/-- The written form of what fills a node. -/
def Fill.text : Fill → String
  | entry => ", style=filled, fillcolor=lightgreen"
  | exit => ", style=filled, fillcolor=lightcoral"
  | plain => ""

end Drawing

namespace Cfg

/-- What fills a node. An entry that leads nowhere is filled as an entry. -/
def fill (g : Cfg) (v : NodeId) : Drawing.Fill :=
  if g.entryId? = some v then .entry
  else if (g.graph.successors v).isEmpty then .exit
  else .plain

/-- The first line of a node's label: the address, whether it is the entry, and its number. -/
def heading (g : Cfg) (v : NodeId) (n : Node) : String :=
  let entry := if g.entryId? = some v then " (entry)" else ""
  let number := match n.number with
    | some k => " #" ++ Radix.dec.unsigned k
    | none => ""
  Label.escape n.addr ++ entry ++ number ++ "\\l"

/-- The line of a node. -/
def drawNode (g : Cfg) (render : Renderer) (v : NodeId) : Except Error String := do
  let some n := g.nodeAt? v | return ""
  let texts ← (n.block.mapM (·.shown render) : Except Error _)
  let body := String.join ((texts.getD []).map Drawing.leftLine)
  return "    " ++ Drawing.name v ++ " [" ++ Drawing.label (g.heading v n ++ body) ++
    (g.fill v).text ++ "];\n"

/-- The line of an edge. -/
def drawEdge (e : Edge (Option Cond)) : String :=
  let attributes := match e.data with
    | some cond => " [" ++ Drawing.label (Label.escape cond.text) ++ ", color=\x22darkgreen\x22]"
    | none => ""
  "    " ++ Drawing.name e.source ++ " -> " ++ Drawing.name e.target ++ attributes ++ ";\n"

/-- The lines of the edges that leave a node. -/
def drawEdges (g : Cfg) (v : NodeId) : String :=
  String.join ((g.graph.edges.toList.filter (·.source == v)).map drawEdge)

/-- **Draw.** The drawing of a graph, with a title if there is one. -/
def draw (g : Cfg) (title : Option String) (render : Renderer) : Except Error String := do
  let nodes ← g.sortedIds.mapM (g.drawNode render)
  return Drawing.header title ++ String.join nodes ++ "\n" ++
    String.join (g.sortedIds.map g.drawEdges) ++ "\x7d\n"

end Cfg

end FlowText
