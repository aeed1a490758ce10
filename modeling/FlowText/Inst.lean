import FlowText.Cond
import FlowText.Keyed

/-!
# Instructions

* `Operation` — `[dest =] op(args)`, with a source address and notes.
* `Inst` — an operation, together with the operations that it was made from.
* `Inst.same` — equality of opcode, destination and arguments; all else is attached information.
* `Inst.uses`, `Inst.dest` — the operands that it reads, and the one that it defines.
-/

namespace FlowText

/-- An argument of an instruction. -/
inductive Arg where
  /-- an operand -/
  | expr (e : Expr)
  /-- a condition -/
  | cond (c : Cond)
  /-- text that stands for itself -/
  | verbatim (text : String)
  deriving DecidableEq, Repr

namespace Arg

/-- **Canonical form.** -/
def text : Arg → String
  | expr e => e.text
  | cond c => c.text
  | verbatim t => t

/-- **Diagnostic form.** Text stands between single quotes. -/
def inspect : Arg → String
  | expr e => e.inspect
  | cond c => c.inspect
  | verbatim t => "'" ++ t ++ "'"

/-- **Same argument.** Operands count up to comments and radices. -/
def same : Arg → Arg → Bool
  | expr e, expr f => e.same f
  | cond c, cond d => c.same d
  | verbatim s, verbatim t => s == t
  | _, _ => false

/-- The operand, if the argument is one. -/
def expr? : Arg → Option Expr
  | expr e => some e
  | _ => none

/-- The operands that are read. A synthetic function is none. -/
def uses : Arg → List Expr
  | expr e => if e.isSynthetic then [] else [e]
  | cond c => c.exprs
  | verbatim _ => []

end Arg

/-- Free-form notes, one for each key, in ascending order of the keys. -/
abbrev Notes := Keyed (Prod.fst : String × String → String)

/-- One operation: what an instruction does at one stage of its history. -/
structure Operation where
  /-- the operand that it defines -/
  dest : Option Expr := none
  op : Opcode
  args : List Arg := []
  /-- where it stands in the lifted program -/
  addr : Option String := none
  notes : Notes := {}
  deriving DecidableEq, Repr

/-- An instruction: an operation with its history. -/
structure Inst extends Operation where
  /-- what it was made from, the latest first -/
  origins : List Operation := []
  deriving DecidableEq, Repr

/-- Two optional operands are both absent or are the same. -/
def sameDest : Option Expr → Option Expr → Bool
  | none, none => true
  | some e, some f => e.same f
  | _, _ => false

namespace Inst

/-- Sets a destination to an operand. -/
def assign (dest source : Expr) : Inst :=
  { dest := some dest, op := .assign, args := [.expr source] }

/-- Sets a destination to operands joined by an operator. There should be two. -/
def binary (dest : Expr) (op : BinOp) (operands : List Expr) : Inst :=
  { dest := some dest, op := .binary op, args := operands.map .expr }

/-- Stands for a line of text. -/
def literal (text : String) : Inst := { op := .literal, args := [.verbatim text] }

/-- Continues at a target. -/
def goto (target : Expr) : Inst := { op := .goto, args := [.expr target] }

/-- Calls a target. -/
def call (target : Expr) : Inst := { op := .call, args := [.expr target] }

/-- Leaves the function. -/
def ret : Inst := { op := .ret }

/-- Performs a named operation. -/
def named (dest : Option Expr) (name : String) (args : List Arg) : Inst :=
  { dest, op := .named name, args }

/-- Calls a synthetic function. -/
def synthetic (dest : Option Expr) (name : String) (operands : List Expr) : Inst :=
  { dest, op := .synthetic, args := .expr (.synthetic name) :: operands.map .expr }

/-- **Same instruction.** Address, notes and history do not count. -/
def same (i j : Inst) : Bool :=
  i.op == j.op && sameDest i.dest j.dest && i.args.isEqv j.args Arg.same

/-- Sets a note, instead of one with the same key. -/
def annotate (key value : String) (i : Inst) : Inst :=
  { i with notes := i.notes.insert (key, value) }

/-- The note with a given key. -/
def note? (key : String) (i : Inst) : Option String := (i.notes.find? key).map Prod.snd

/-- The key of the note that marks an instruction as dead. -/
def deadKey : String := "dead"

/-- Marks the instruction as dead. -/
def markDead (i : Inst) : Inst := i.annotate deadKey "true"

/-- The instruction carries a note that it is dead, whatever the note says. -/
def isDead (i : Inst) : Bool := (i.note? deadKey).isSome

/-- The instruction carries neither notes nor a history. -/
def isPlain (i : Inst) : Bool := i.origins.isEmpty && i.notes.toList.isEmpty

/-- What the instruction was made from. -/
def origin? (i : Inst) : Option Inst :=
  match i.origins with
  | [] => none
  | o :: os => some ⟨o, os⟩

/-- Replaces the history by an instruction and its history. -/
def setOrigin (i earlier : Inst) : Inst :=
  { i with origins := earlier.toOperation :: earlier.origins }

/-- Records the present operation, without its notes, as the whole history. -/
def recordOrigin (i : Inst) : Inst := { i with origins := [{ i.toOperation with notes := {} }] }

/-- The operands that are read, left to right. -/
def uses (i : Inst) : List Expr := i.args.flatMap Arg.uses

end Inst

end FlowText
