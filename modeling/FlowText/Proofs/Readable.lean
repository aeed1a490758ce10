import FlowText.Inst.Form
import FlowText.Proofs.Characters

/-!
# Readable values

A value is readable if its canonical text says all of it. Comments and synthetic functions are not
told apart from what stands around them, names have to be what the lexer takes for names, and a word
for a jump is no destination.

* `Expr.Readable`, `Cond.Readable`, `Arg.Readable` — the operands.
* `Operation.Readable` — the shapes of operations that have a text of their own.
-/

namespace FlowText

namespace Expr

/-- **Readable expressions.** There is no comment at any depth, and every name is one. -/
def Readable : Expr → Prop
  | reg name c => c = "" ∧ IsRegName name
  | value _ _ c => c = ""
  | addr a c => c = "" ∧ IsWord a
  | mem ty base _ c => c = "" ∧ IsWord ty ∧ base.Readable
  | synthetic .. => False

/-- Readable expressions are found by looking at them. -/
def decReadable : (e : Expr) → Decidable e.Readable
  | reg _ _ => inferInstanceAs (Decidable (_ ∧ _))
  | value _ _ _ => inferInstanceAs (Decidable (_ = _))
  | addr _ _ => inferInstanceAs (Decidable (_ ∧ _))
  | mem _ base _ _ =>
    have : Decidable base.Readable := decReadable base
    inferInstanceAs (Decidable (_ ∧ _ ∧ _))
  | synthetic _ _ => inferInstanceAs (Decidable False)

instance (e : Expr) : Decidable e.Readable := decReadable e

/-- An operand that may stand in front of an equals sign: the reader takes `goto` and `call` for
instructions. -/
def IsDestination (d : Expr) : Prop := d.Readable ∧ d ≠ addr "goto" ∧ d ≠ addr "call"

instance (d : Expr) : Decidable d.IsDestination := inferInstanceAs (Decidable (_ ∧ _ ∧ _))

end Expr

/-- **Readable conditions.** All operands are readable. -/
def Cond.Readable (c : Cond) : Prop := ∀ e ∈ c.exprs, e.Readable

/-- The operands of the chain are readable. -/
def Chain.Readable (chain : Chain) : Prop := ∀ e ∈ chain.exprs, e.Readable

instance (c : Cond) : Decidable c.Readable := inferInstanceAs (Decidable (∀ e ∈ c.exprs, _))

/-- **Readable arguments.** Text that stands for itself is none. -/
def Arg.Readable : Arg → Prop
  | .expr e => e.Readable
  | .cond c => c.Readable
  | .verbatim _ => False

instance : (a : Arg) → Decidable a.Readable
  | .expr e => inferInstanceAs (Decidable e.Readable)
  | .cond c => inferInstanceAs (Decidable c.Readable)
  | .verbatim _ => inferInstanceAs (Decidable False)

/-- **Readable shapes.** The opcodes, destinations and arguments that have a text of their own. -/
inductive ReadableShape : Opcode → Option Expr → List Arg → Prop where
  | ret : ReadableShape .ret none []
  | goto {e : Expr} (h : e.Readable) : ReadableShape .goto none [.expr e]
  | call {e : Expr} (h : e.Readable) : ReadableShape .call none [.expr e]
  | assign {d e : Expr} (hd : d.IsDestination) (h : e.Readable) :
    ReadableShape .assign (some d) [.expr e]
  | binary {d l r : Expr} {op : BinOp} (hd : d.IsDestination) (hl : l.Readable)
    (hr : r.Readable) : ReadableShape (.binary op) (some d) [.expr l, .expr r]
  | named {dest : Option Expr} {name : String} {args : List Arg}
    (hd : ∀ d ∈ dest, d.IsDestination) (hn : IsWord name) (ha : ∀ a ∈ args, a.Readable) :
    ReadableShape (.named name) dest args

/-- **Readable operations.** Address and notes do not show in the text and may be anything. -/
def Operation.Readable (o : Operation) : Prop := ReadableShape o.op o.dest o.args

/-! ### Equality up to comments and radices -/

theorem Expr.same_refl (e : Expr) : e.same e = true := by
  induction e with
  | mem ty base o c ih => simp [same, ih]
  | _ => simp [same]

theorem Expr.same_comm (e f : Expr) : e.same f = f.same e := by
  induction e generalizing f with
  | mem ty base o c ih =>
    cases f with
    | mem tz b p d => simp only [same, ih b, Bool.beq_comm (a := ty), Bool.beq_comm (a := o)]
    | _ => rfl
  | _ => cases f <;> simp only [same, Bool.beq_comm]

mutual

theorem Cond.same_refl (c : Cond) : c.same c = true := by
  match c with
  | .simple l op r => simp [Cond.same, Expr.same_refl]
  | .compound chain =>
    rw [Cond.same]
    exact Chain.same_refl chain

theorem Chain.same_refl (chain : Chain) : chain.same chain = true := by
  match chain with
  | .single c =>
    rw [Chain.same]
    exact Cond.same_refl c
  | .join front op c =>
    rw [Chain.same, Chain.same_refl front, Cond.same_refl c]
    simp

end

theorem Arg.same_refl (a : Arg) : a.same a = true := by
  cases a with
  | expr e => exact e.same_refl
  | cond c => exact c.same_refl
  | verbatim t => simp [same]

theorem isEqv_refl (args : List Arg) : args.isEqv args Arg.same = true := by
  induction args with
  | nil => rfl
  | cons a args ih => simp [List.isEqv, Arg.same_refl, ih]

theorem sameDest_refl (d : Option Expr) : sameDest d d = true := by
  cases d with
  | none => rfl
  | some e => exact e.same_refl

namespace Operation

/-- **Same operation.** This is what `Inst.same` looks at. -/
def same (o p : Operation) : Bool :=
  o.op == p.op && sameDest o.dest p.dest && o.args.isEqv p.args Arg.same

theorem same_of_eq {o p : Operation} (hop : o.op = p.op) (hd : o.dest = p.dest)
    (ha : o.args = p.args) : o.same p = true := by
  simp [same, hop, hd, ha, sameDest_refl, isEqv_refl]

/-- **Respelling.** The operation is the same as another one, and has its text. -/
structure Respells (p o : Operation) : Prop where
  same : p.same o = true
  text : p.form.map Form.text = o.form.map Form.text

end Operation

end FlowText
