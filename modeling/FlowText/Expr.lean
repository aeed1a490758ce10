import FlowText.Text.Numeral

/-!
# Operand expressions

* `Expr` — registers, values, addresses, memory references and synthetic functions, each with a
  comment that stands in front of its text.
* `Expr.text`, `Expr.inspect` — the canonical and the diagnostic form.
* `Expr.same` — equality up to comments and radices. The equality of the type tells those apart.
-/

namespace FlowText

/-- An operand of an instruction. The comment is free text, not part of the value. -/
inductive Expr where
  /-- a register -/
  | reg (name : String) (comment : String := "")
  /-- a constant, and how it is written -/
  | value (word : Int64) (radix : Radix := .hex) (comment : String := "")
  /-- a symbolic address -/
  | addr (text : String) (comment : String := "")
  /-- the element of type `ty` at `base + offset` -/
  | mem (ty : String) (base : Expr) (offset : Int64) (comment : String := "")
  /-- a function that a transformation brought in -/
  | synthetic (name : String) (comment : String := "")
  deriving DecidableEq, Repr

namespace Expr

/-- The free text in front of both forms. -/
def comment : Expr → String
  | reg _ c | value _ _ c | addr _ c | mem _ _ _ c | synthetic _ c => c

/-- The same expression with another comment. -/
def withComment (c : String) : Expr → Expr
  | reg n _ => reg n c
  | value w r _ => value w r c
  | addr a _ => addr a c
  | mem ty b o _ => mem ty b o c
  | synthetic n _ => synthetic n c

/-- What kind of expression it is, in a word. The order between kinds goes by this word. -/
def kindName : Expr → String
  | reg .. => "Register"
  | value .. => "Value"
  | addr .. => "Address"
  | mem .. => "MemoryRef"
  | synthetic .. => "SyntheticFunc"

/-- The element at an offset of a base, both given by their texts. -/
def memText (ty base : String) (offset : Int) : String :=
  let type := "*(" ++ ty ++ "*)"
  if offset = 0 then type ++ base
  else if 0 < offset then type ++ "(" ++ base ++ " + " ++ Radix.hex.unsigned offset.natAbs ++ ")"
  else type ++ "(" ++ base ++ " - " ++ Radix.hex.unsigned offset.natAbs ++ ")"

/-- **Canonical form.** -/
def text : Expr → String
  | reg name c => c ++ "$" ++ name
  | value w r c => c ++ r.signed w.toInt
  | addr a c => c ++ a
  | mem ty base o c => c ++ memText ty base.text o.toInt
  | synthetic name c => c ++ name

/-- **Diagnostic form.** It shows the kind; a memory reference looks as in its canonical form. -/
def inspect : Expr → String
  | reg name c => c ++ "REG(" ++ name ++ ")"
  | value w _ c => c ++ "VALUE(" ++ Radix.hex.signed w.toInt ++ ")"
  | addr a c => c ++ "ADDR(" ++ a ++ ")"
  | mem ty base o c => (mem ty base o c).text
  | synthetic name c => c ++ "(SFUNC)" ++ name

/-- **Same value.** Comments and radices do not count, at any depth. -/
def same : Expr → Expr → Bool
  | reg n _, reg m _ => n == m
  | value v _ _, value w _ _ => v == w
  | addr a _, addr b _ => a == b
  | mem ty a o _, mem tz b p _ => ty == tz && a.same b && o == p
  | synthetic n _, synthetic m _ => n == m
  | _, _ => false

/-- It is a register. -/
def isReg : Expr → Bool
  | reg .. => true
  | _ => false

/-- It is a constant. -/
def isValue : Expr → Bool
  | value .. => true
  | _ => false

/-- It is a synthetic function. -/
def isSynthetic : Expr → Bool
  | synthetic .. => true
  | _ => false

/-- The number that a constant stands for. -/
def value? : Expr → Option Int64
  | value w _ _ => some w
  | _ => none

/-- The register that an access goes through: a register itself, or the base of a memory reference
if that is a register. -/
def reg? : Expr → Option Expr
  | reg n c => some (reg n c)
  | mem _ base _ _ => if base.isReg then some base else none
  | _ => none

/-- The name of a register. -/
def name? : Expr → Option String
  | reg n _ => some n
  | _ => none

/-- The name of the register that an access goes through. -/
def regName? (e : Expr) : Option String := e.reg?.bind name?

end Expr

end FlowText
