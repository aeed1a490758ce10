import FlowText.Cfg.View
import FlowText.Dump.Exits
import FlowText.Log

/-!
# Dumps

The text of a graph has an entry for each node, and a blank line between entries:

    // Predecessors: ['blk1']
    // DFS#: 2
    blk2:
    $r0 += 0x1
    Exits: [('($r1 == 0x0)', 'blk10'), (None, 'blk3')]

The line with the postorder number is left out where there is none, and a node without a block has a
placeholder in place of its instructions. Predecessors stand in the order of their code points.

* `View.write` — writes the dump into a sink; it stops where the sink or the renderer fails.
* `View.dump` — the dump as a text, if the renderer refuses no instruction.
-/

namespace FlowText

namespace Dump

/-- What stands in front of the predecessors. -/
def predMark : String := "// Predecessors:"

/-- What stands in front of a postorder number. -/
def numberMark : String := "// DFS#:"

/-- What stands in front of the exits. -/
def exitsMark : String := "Exits:"

/-- What stands in front of an earlier stage of an instruction. -/
def originMark : String := "// "

/-- What stands in place of the instructions if there is no block. -/
def placeholder : String := "    None"

end Dump

namespace View

/-- The line with the predecessors. -/
def predLine (v : View) (addr : String) : String :=
  let preds := (v.pred addr).mergeSort fun a b => decide (a ≤ b)
  Dump.predMark ++ " [" ++ ", ".intercalate (preds.map Quoted.encode) ++ "]\n"

/-- The line with the postorder number, if there is one. -/
def numberLine (v : View) (addr : String) : String :=
  match v.number? addr with
  | some n => Dump.numberMark ++ " " ++ Radix.dec.unsigned n ++ "\n"
  | none => ""

/-- The exits of an address, as they are written. -/
def exits (v : View) (addr : String) : List Exit :=
  (v.succ addr).map fun target => ((v.edgeCond? addr target).map Cond.text, target)

/-- The line with the exits. -/
def exitsLine (v : View) (addr : String) : String :=
  Dump.exitsMark ++ " " ++ Exits.text (v.exits addr) ++ "\n"

/-- Writes the entry of an address. -/
def writeEntry (v : View) (render : Renderer) (addr : String) : Emit Unit := do
  emit (v.predLine addr)
  emit (v.numberLine addr)
  emit (addr ++ ":\n")
  match v.block? addr with
  | some b => b.write 0 render
  | none => emit (Dump.placeholder ++ "\n")
  emit (v.exitsLine addr)

/-- **Write.** Writes the entries of all addresses, with a blank line between them. -/
def write (v : View) (render : Renderer) : Emit Unit :=
  match v.addrs with
  | [] => pure ()
  | first :: more => do
    v.writeEntry render first
    more.forM fun addr => do
      emit "\n"
      v.writeEntry render addr

/-- **Dump.** The text of a graph. -/
def dump (v : View) (render : Renderer) : Except Error String := (v.write render).text

/-- What is logged when a dump was written. -/
def dumped (v : View) : LogLine := debug s!"Dumped {v.addrs.length} CFG nodes"

end View

end FlowText
