import FlowText.Inst
import FlowText.Sink

/-!
# Texts of instructions

* `Form` — the well-shaped operations; `Operation.form` tells which one an operation is, or which
  shape rule it breaks.
* `Inst.write`, `Inst.canonical` — the canonical form, behind a line `// …` for each stage of the
  history.
* `Inst.inspect` — the diagnostic form, which exists for every instruction.
-/

namespace FlowText

/-- A well-shaped operation. -/
inductive Form where
  /-- a line of text -/
  | literal (text : String)
  | ret
  | goto (target : Arg)
  | call (target : Arg)
  | assign (dest : Expr) (source : Arg)
  | binary (dest : Expr) (op : BinOp) (left right : Arg)
  /-- a call by name, be it a synthetic function or a named operation -/
  | apply (dest : Option Expr) (name : String) (args : List Arg)
  deriving DecidableEq, Repr

namespace Form

/-- The destination in front of a call. -/
def destText : Option Expr → String
  | none => ""
  | some d => d.text ++ " = "

/-- The argument is an operand that is the same as the destination. -/
def updates (dest : Expr) : Arg → Bool
  | .expr e => e.same dest
  | _ => false

/-- **Canonical form.** If the first operand is the destination, it is not written twice. -/
def text : Form → String
  | literal t => t
  | ret => "return"
  | goto a => "goto " ++ a.text
  | call a => "call " ++ a.text
  | assign d a => d.text ++ " = " ++ a.text
  | binary d op a b =>
    if updates d a then d.text ++ " " ++ op.symbol ++ "= " ++ b.text
    else d.text ++ " = " ++ a.text ++ " " ++ op.symbol ++ " " ++ b.text
  | apply d name args =>
    destText d ++ name ++ "(" ++ ", ".intercalate (args.map Arg.text) ++ ")"

end Form

namespace Operation

/-- **Shape rules.** The form of an operation. Text has no destination and is one argument; an
assignment has a destination and one argument, a binary operation a destination and two; a jump or
call has at least one argument, and only the first counts. -/
def form (o : Operation) : Except Defect Form :=
  match o.op, o.dest, o.args with
  | .literal, some _, _ => .error .literalDest
  | .literal, none, [.verbatim t] => .ok (.literal t)
  | .literal, none, args => .error (.literalArgs args.length)
  | .assign, some d, [a] => .ok (.assign d a)
  | .assign, _, args => .error (.assignShape args.length)
  | .binary op, none, _ => .error (.binaryDest op.symbol)
  | .binary op, some d, [a, b] => .ok (.binary d op a b)
  | .binary op, some _, args => .error (.binaryArgs op.symbol args.length)
  | .goto, _, a :: _ => .ok (.goto a)
  | .goto, _, [] => .error (.noTarget Opcode.goto.tag)
  | .call, _, a :: _ => .ok (.call a)
  | .call, _, [] => .error (.noTarget Opcode.call.tag)
  | .synthetic, d, f :: args => .ok (.apply d f.text args)
  | .synthetic, _, [] => .error (.noTarget Opcode.synthetic.tag)
  | .ret, _, _ => .ok .ret
  | .named name, d, args => .ok (.apply d name args)

/-- Whether the operation keeps the shape rules. -/
def validate (o : Operation) : Except Error Unit := (o.form.map fun _ => ()).mapError .malformed

/-- The raw operation: its tag and the diagnostic forms of its arguments. -/
def inspectBody (o : Operation) : String :=
  match o.dest, o.op with
  | none, .literal => (o.args.head?.map Arg.text).getD ""
  | d, op => Form.destText d ++ op.tag ++ "([" ++ ", ".intercalate (o.args.map Arg.inspect) ++ "])"

/-- The notes, behind a number sign. -/
def inspectNotes (o : Operation) : String :=
  match o.notes.toList with
  | [] => ""
  | notes =>
    " # \x7b" ++ ", ".intercalate (notes.map fun (key, value) => key ++ ": " ++ value) ++ "\x7d"

/-- **Diagnostic form** of one stage: source address, raw operation, notes. -/
def inspect (o : Operation) : String :=
  let place := match o.addr with
    | none => ""
    | some a => "/*" ++ a ++ "*/ "
  place ++ o.inspectBody ++ o.inspectNotes

/-- Writes the canonical form of an operation with a history. The operation is checked before
anything is written, and its own text comes last. -/
def write (o : Operation) : (origins : List Operation) → Emit Unit
  | [] => do
    let form ← o.form.mapError Error.malformed
    emit form.text
  | p :: ps => do
    let form ← o.form.mapError Error.malformed
    emit "// "
    p.write ps
    emit "\n"
    emit form.text

end Operation

namespace Inst

/-- **Write.** Writes the canonical form. -/
def write (i : Inst) : Emit Unit := i.toOperation.write i.origins

/-- **Canonical form.** It exists if the operation and every stage of its history keep the shape
rules. -/
def canonical (i : Inst) : Except Error String := i.write.text

/-- The diagnostic form of an operation with a history. The history is shown in its canonical form
if it has one. -/
def inspectChain (o : Operation) : (origins : List Operation) → String
  | [] => o.inspect
  | p :: ps =>
    let earlier := match canonical ⟨p, ps⟩ with
      | .ok text => text
      | .error _ => inspectChain p ps
    "// " ++ earlier ++ "\n" ++ o.inspect

/-- **Diagnostic form.** -/
def inspect (i : Inst) : String := inspectChain i.toOperation i.origins

/-- The canonical form for a reader who needs no reason: any failure is a failure to format. -/
def display (i : Inst) : Except Error String := i.canonical.mapError fun _ => .format

end Inst

end FlowText
