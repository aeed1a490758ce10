import FlowText.Defect

/-!
# Operators

The closed vocabularies of the instruction text, and the opcodes.

* `Comparison` — with its complement `negate`, and `swap` for exchanged operands.
* `Connective` — with its dual `negate`; the reader also knows the words `AND` and `OR`.
* `BinOp` — arithmetic and bitwise operators.
* `Opcode` — what an instruction does; `tag` and `ofTag` are its textual form.
-/

namespace FlowText

/-- A comparison of two operands. -/
inductive Comparison where
  | eq | ne | lt | le | gt | ge
  deriving DecidableEq, Repr

namespace Comparison

/-- The written form. -/
def symbol : Comparison → String
  | eq => "=="
  | ne => "!="
  | lt => "<"
  | le => "<="
  | gt => ">"
  | ge => ">="

/-- The comparison that holds exactly where this one does not. -/
def negate : Comparison → Comparison
  | eq => ne
  | ne => eq
  | lt => ge
  | ge => lt
  | gt => le
  | le => gt

/-- The comparison that says the same about exchanged operands. -/
def swap : Comparison → Comparison
  | eq => eq
  | ne => ne
  | lt => gt
  | gt => lt
  | le => ge
  | ge => le

/-- Reads a symbol. -/
def ofSymbol (text : String) : Except Defect Comparison :=
  match text with
  | "==" => .ok eq
  | "!=" => .ok ne
  | "<" => .ok lt
  | "<=" => .ok le
  | ">" => .ok gt
  | ">=" => .ok ge
  | _ => .error (.unknownComparison text)

@[simp] theorem negate_negate (c : Comparison) : c.negate.negate = c := by cases c <;> rfl

@[simp] theorem swap_swap (c : Comparison) : c.swap.swap = c := by cases c <;> rfl

/-- Negation and exchange of operands do not disturb each other. -/
theorem swap_negate (c : Comparison) : c.negate.swap = c.swap.negate := by cases c <;> rfl

theorem ofSymbol_symbol (c : Comparison) : ofSymbol c.symbol = .ok c := by cases c <;> rfl

end Comparison

/-- What joins two conditions. -/
inductive Connective where
  | and | or
  deriving DecidableEq, Repr

namespace Connective

/-- The written form. -/
def symbol : Connective → String
  | and => "&&"
  | or => "||"

/-- The connective that De Morgan's laws put in its place. -/
def negate : Connective → Connective
  | and => or
  | or => and

/-- Reads a symbol, or the word for it. -/
def ofWord (text : String) : Except Defect Connective :=
  match text with
  | "&&" | "AND" => .ok and
  | "||" | "OR" => .ok or
  | _ => .error (.unknownConnective text)

@[simp] theorem negate_negate (l : Connective) : l.negate.negate = l := by cases l <;> rfl

theorem ofWord_symbol (l : Connective) : ofWord l.symbol = .ok l := by cases l <;> rfl

end Connective

/-- An arithmetic or bitwise operator between two operands. -/
inductive BinOp where
  | add | sub | mul | div | rem | and | or | xor | shl | shr
  deriving DecidableEq, Repr

namespace BinOp

/-- The written form. -/
def symbol : BinOp → String
  | add => "+"
  | sub => "-"
  | mul => "*"
  | div => "/"
  | rem => "%"
  | and => "&"
  | or => "|"
  | xor => "^"
  | shl => "<<"
  | shr => ">>"

/-- Reads a symbol. -/
def ofSymbol? (text : String) : Option BinOp :=
  match text with
  | "+" => some add
  | "-" => some sub
  | "*" => some mul
  | "/" => some div
  | "%" => some rem
  | "&" => some and
  | "|" => some or
  | "^" => some xor
  | "<<" => some shl
  | ">>" => some shr
  | _ => none

theorem ofSymbol?_symbol (o : BinOp) : ofSymbol? o.symbol = some o := by cases o <;> rfl

end BinOp

/-- What an instruction does. -/
inductive Opcode where
  /-- leave the function -/
  | ret
  /-- continue at a target -/
  | goto
  /-- call a target -/
  | call
  /-- set the destination to the argument -/
  | assign
  /-- stand for a line of text -/
  | literal
  /-- call the synthetic function that the first argument names -/
  | synthetic
  /-- set the destination to two arguments joined by an operator -/
  | binary (op : BinOp)
  /-- any other operation, known by its name -/
  | named (name : String)
  deriving DecidableEq, Repr

namespace Opcode

/-- The textual tag. -/
def tag : Opcode → String
  | ret => "return"
  | goto => "goto"
  | call => "call"
  | assign => "ASSIGN"
  | literal => "LIT"
  | synthetic => "SFUNC"
  | binary op => op.symbol
  | named name => name

/-- The tag is that of a named operation: it starts with an ASCII letter or an underscore. -/
def isName (tag : String) : Bool := tag.toList.head?.any fun c => c.isAlpha || c == '_'

/-- **Tag.** Reads a textual tag. Only a tag that does not start like a name is looked up among the
operators. -/
def ofTag (tag : String) : Except Defect Opcode :=
  match tag with
  | "return" => .ok ret
  | "goto" => .ok goto
  | "call" => .ok call
  | "ASSIGN" => .ok assign
  | "LIT" => .ok literal
  | "SFUNC" => .ok synthetic
  | "" => .error .emptyTag
  | _ =>
    if isName tag then .ok (named tag)
    else match BinOp.ofSymbol? tag with
      | some op => .ok (binary op)
      | none => .error (.unknownTag tag)

/-- The operation hands over control. -/
def isControl : Opcode → Bool
  | ret | goto | call => true
  | _ => false

end Opcode

end FlowText
