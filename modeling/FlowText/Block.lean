import FlowText.Render

/-!
# Basic blocks

An ordered list of instructions with an address. `Block.write` writes one line for each of them, and
`Block.shown` gives their texts as a list.
-/

namespace FlowText

/-- Instructions that are carried out in order, entered at an address. -/
structure Block where
  /-- the entry address -/
  addr : String
  /-- the instructions, in order -/
  insts : List Inst := []
  deriving DecidableEq, Repr

namespace Block

/-- Adds an instruction at the end. -/
def push (i : Inst) (b : Block) : Block := { b with insts := b.insts ++ [i] }

/-- Inserts an instruction before a position. There is no place behind the end. -/
def insertAt? (position : Nat) (i : Inst) (b : Block) : Option Block :=
  if position ≤ b.insts.length then some { b with insts := b.insts.insertIdx position i } else none

/-- Takes out the instruction at a position. -/
def removeAt? (position : Nat) (b : Block) : Option (Inst × Block) :=
  b.insts[position]?.map fun i => (i, { b with insts := b.insts.eraseIdx position })

/-- Keeps the instructions that have a property. -/
def retain (keep : Inst → Bool) (b : Block) : Block := { b with insts := b.insts.filter keep }

/-- Changes the instruction at a position, if there is one. -/
def modifyAt (position : Nat) (f : Inst → Inst) (b : Block) : Block :=
  { b with insts := b.insts.modify position f }

/-- **Same block.** The addresses are equal and the instructions are the same, one by one. -/
def same (b c : Block) : Bool := b.addr == c.addr && b.insts.isEqv c.insts Inst.same

/-- **Write.** Writes a line for each instruction that the renderer shows, behind two blanks for
each step of indentation. A text of several lines is indented at its start only. -/
def write (b : Block) (indent : Nat) (render : Renderer) : Emit Unit :=
  b.insts.forM fun i => do
    match ← render i with
    | none => pure ()
    | some text =>
      emit (String.ofList (List.replicate (2 * indent) ' '))
      emit text
      emit "\n"

/-- The texts of the instructions that the renderer shows. -/
def shown (b : Block) (render : Renderer) : Except Error (List String) := do
  return (← b.insts.mapM render).filterMap id

end Block

end FlowText
