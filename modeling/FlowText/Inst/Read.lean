import FlowText.Cond.Read
import FlowText.Inst

/-!
# Reading instructions

    inst := 'return' | ('goto' | 'call') expr
          | [expr '='] word '(' [arg (',' arg)*] ')'
          | expr '=' expr [infix expr]
          | expr infix '=' expr
    arg  := expr | cond

`instruction` reads all tokens of an instruction, and `Inst.ofText` a whole text. A word in front of
an opening parenthesis names an operation, whatever the word.
-/

namespace FlowText

/-- Reads an argument. An opening parenthesis starts a condition. -/
def argument (ts : List Token) : Except GrammarError (Parse Arg ts) :=
  match ts with
  | .lparen :: inner =>
    (condition (.lparen :: inner)).map fun c => ⟨.cond c.value, c.rest, c.shorter⟩
  | ts => (operandParse ts).map fun e => ⟨.expr e.value, e.rest, e.shorter⟩

/-- Reads one or more arguments, up to the closing parenthesis. -/
def someArguments (ts : List Token) : Except GrammarError (List Arg × List Token) := do
  let arg ← argument ts
  match h : arg.rest with
  | .comma :: more =>
    have : more.length < ts.length := by
      have := arg.shorter
      simp only [h, List.length_cons] at this
      omega
    let (args, rest) ← someArguments more
    return (arg.value :: args, rest)
  | .rparen :: rest => return ([arg.value], rest)
  | rest => expected .argsNext rest
termination_by ts.length

/-- Reads the arguments behind an opening parenthesis, up to the closing one. -/
def arguments : List Token → Except GrammarError (List Arg × List Token)
  | .rparen :: rest => .ok ([], rest)
  | ts => someArguments ts

/-- Reads a call, which ends the text. -/
def application (dest : Option Expr) (name : String) (ts : List Token) :
    Except GrammarError Inst := do
  let (args, rest) ← arguments ts
  ended rest
  return .named dest name args

/-- Reads an expression, which ends the text. -/
def lastOperand (ts : List Token) : Except GrammarError Expr := do
  let (e, rest) ← operand ts
  ended rest
  return e

/-- The binary operator that a symbol stands for. -/
def binaryOp (s : Symbol) : Except GrammarError BinOp :=
  match BinOp.ofSymbol? s.text with
  | some op => .ok op
  | none => .error (.unknownOperator s)

/-- Reads the right-hand side of an assignment. -/
def source (dest : Expr) : List Token → Except GrammarError Inst
  | .word name :: .lparen :: ts => application (some dest) name ts
  | ts => do
    let (left, rest) ← operand ts
    match rest with
    | [] => return .assign dest left
    | .symbol s :: ts =>
      let op ← binaryOp s
      let right ← lastOperand ts
      return .binary dest op [left, right]
    | rest => expected .operatorOrEnd rest

/-- Reads the right-hand side of an assignment that applies an operator to its destination. -/
def update (dest : Expr) (op : BinOp) : List Token → Except GrammarError Inst
  | .assign :: ts => return .binary dest op [dest, ← lastOperand ts]
  | ts => expected .updateAssign ts

/-- **Instruction.** Reads an instruction, which ends the text. -/
def instruction : List Token → Except GrammarError Inst
  | [.word "return"] => .ok .ret
  | .word name :: .lparen :: ts => application none name ts
  | .word "goto" :: ts => (lastOperand ts).map .goto
  | .word "call" :: ts => (lastOperand ts).map .call
  | ts => do
    let (dest, rest) ← operand ts
    match rest with
    | .assign :: ts => source dest ts
    | .symbol s :: ts => update dest (← binaryOp s) ts
    | rest => expected .assign rest

/-- **Read.** The instruction that a text is. -/
def Inst.ofText (input : String) : Except TextError Inst := readText instruction input

end FlowText
