import FlowText.Proofs.Grammar.Inst

/-!
# Readers that leave tokens

The readers of instructions end with the text. What they read up to the end is read here with the
tokens that are left given back, as expressions and conditions are: a reader that ends with the text
is one that leaves tokens, and then the test that there are none (`thenEnded`).

* `rightHand`, `assigned` — the right-hand side of an assignment, and an instruction with its
  destination.
* `source_eq`, `instruction_operand` — the readers that end with the text are these and the test.
* `instructionFrom` — an instruction from some token on.
-/

namespace FlowText

open Token (lparen rparen comma)

/-- Reads the arguments of a call, from the opening parenthesis on. -/
def argumentList : List Token → Except GrammarError (List Arg × List Token)
  | .lparen :: ts => arguments ts
  | ts => expected .argsOpen ts

/-- Reads what may stand behind the first operand on the right-hand side of an assignment. -/
def rightHandBehind (dest left : Expr) : List Token → Except GrammarError (Inst × List Token)
  | [] => .ok (.assign dest left, [])
  | .symbol s :: ts => do
    let op ← binaryOp s
    let (right, rest) ← operand ts
    return (.binary dest op [left, right], rest)
  | rest => expected .operatorOrEnd rest

/-- Reads what may stand behind an operator that is applied to the destination. -/
def updateBehind (dest : Expr) (op : BinOp) : List Token → Except GrammarError (Inst × List Token)
  | .assign :: ts => do
    let (right, rest) ← operand ts
    return (.binary dest op [dest, right], rest)
  | ts => expected .updateAssign ts

/-- Reads the right-hand side of an assignment, and gives back the tokens behind it. -/
def rightHand (dest : Expr) : List Token → Except GrammarError (Inst × List Token)
  | .word name :: .lparen :: ts =>
    (arguments ts).map fun (args, rest) => (.named (some dest) name args, rest)
  | ts => do
    let (left, rest) ← operand ts
    rightHandBehind dest left rest

/-- Reads what may stand behind the destination of an instruction. -/
def destBehind (dest : Expr) : List Token → Except GrammarError (Inst × List Token)
  | .assign :: ts => rightHand dest ts
  | .symbol s :: ts => do updateBehind dest (← binaryOp s) ts
  | rest => expected .assign rest

/-- Reads an instruction that starts with its destination, and gives back the tokens behind it. -/
def assigned (ts : List Token) : Except GrammarError (Inst × List Token) := do
  let (dest, rest) ← operand ts
  destBehind dest rest

variable {α β : Type}

/-- Goes on only if no tokens are left. -/
def thenEnded (r : Except GrammarError (α × List Token)) : Except GrammarError α := do
  let (a, rest) ← r
  ended rest
  return a

/-- The result of what used up all tokens. -/
def atEnd (r : Except GrammarError α) : Except GrammarError (α × List Token) := r.map (·, [])

theorem atEnd_thenEnded (r : Except GrammarError (α × List Token)) (f : α → β) :
    atEnd ((thenEnded r).map f) = r >>= fun (a, rest) => (ended rest).map fun _ => (f a, []) := by
  rw [thenEnded]
  cases r with
  | error e => rfl
  | ok p =>
    change atEnd (Except.map f (ended p.2 >>= _)) = Except.map _ (ended p.2)
    cases ended p.2 <;> rfl

theorem thenEnded_bind (r : Except GrammarError α) (f : α → Except GrammarError (β × List Token)) :
    thenEnded (r >>= f) = r >>= fun a => thenEnded (f a) := by
  cases r <;> rfl

theorem thenEnded_map (r : Except GrammarError (α × List Token)) (f : α → β) :
    thenEnded (r.map fun (a, rest) => (f a, rest)) = (thenEnded r).map f := by
  cases r with
  | error e => rfl
  | ok p =>
    change ended p.2 >>= _ = Except.map f (ended p.2 >>= _)
    cases ended p.2 <;> rfl

/-- The call of a name ends with its arguments. -/
theorem application_eq (dest : Option Expr) (name : String) (ts : List Token) :
    application dest name ts = (thenEnded (arguments ts)).map (.named dest name) := by
  rw [← thenEnded_map, application]
  cases arguments ts <;> rfl

theorem lastOperand_eq (ts : List Token) : lastOperand ts = thenEnded (operand ts) := rfl

theorem thenEnded_operand (ts : List Token) (f : Expr → Inst) :
    thenEnded (operand ts >>= fun (e, rest) => .ok (f e, rest)) =
      lastOperand ts >>= fun e => .ok (f e) := by
  have h := thenEnded_map (operand ts) f
  rw [← lastOperand_eq] at h
  calc
    _ = (lastOperand ts).map f := by
      rw [← h]
      cases operand ts <;> rfl
    _ = _ := by cases lastOperand ts <;> rfl

/-- So does what stands behind the first operand. -/
theorem sourceBehind_eq (dest left : Expr) (ts : List Token) :
    sourceBehind dest left ts = thenEnded (rightHandBehind dest left ts) := by
  match ts with
  | [] => rfl
  | .symbol s :: us =>
    rw [rightHandBehind, thenEnded_bind]
    exact congrArg _ (funext fun op => (thenEnded_operand us _).symm)
  | .reg _ :: _ | .number .. :: _ | .word _ :: _ | .lparen :: _ | .rparen :: _ | .comma :: _
  | .assign :: _ => rfl

/-- A right-hand side that is no call starts with an operand. -/
theorem rightHand_operand {dest : Expr} {ts : List Token}
    (h : ∀ name us, ts ≠ .word name :: lparen :: us) :
    rightHand dest ts = operand ts >>= fun (left, rest) => rightHandBehind dest left rest := by
  rw [rightHand]
  exact h

theorem source_operand {dest : Expr} {ts : List Token}
    (h : ∀ name us, ts ≠ .word name :: lparen :: us) :
    source dest ts = operand ts >>= fun (left, rest) => sourceBehind dest left rest := by
  rw [source]
  · rfl
  · exact h

/-- A right-hand side ends the text. -/
theorem source_eq (dest : Expr) (ts : List Token) :
    source dest ts = thenEnded (rightHand dest ts) := by
  by_cases h : ∃ name us, ts = .word name :: lparen :: us
  · obtain ⟨name, us, rfl⟩ := h
    exact (application_eq (some dest) name us).trans (thenEnded_map _ _).symm
  · have hno : ∀ name us, ts ≠ .word name :: lparen :: us := fun name us he => h ⟨name, us, he⟩
    rw [source_operand hno, rightHand_operand hno, thenEnded_bind]
    exact congrArg _ (funext fun p => sourceBehind_eq dest p.1 p.2)

/-- An update in place ends the text. -/
theorem update_eq (dest : Expr) (op : BinOp) (ts : List Token) :
    update dest op ts = thenEnded (updateBehind dest op ts) := by
  match ts with
  | .assign :: us => exact (thenEnded_operand us _).symm
  | [] | .reg _ :: _ | .number .. :: _ | .word _ :: _ | .symbol _ :: _ | .lparen :: _ | .rparen :: _
  | .comma :: _ => rfl

/-- So does whatever stands behind a destination. -/
theorem instructionBehind_eq (dest : Expr) (ts : List Token) :
    instructionBehind dest ts = thenEnded (destBehind dest ts) := by
  match ts with
  | .assign :: us => exact source_eq dest us
  | .symbol s :: us =>
    rw [destBehind, thenEnded_bind]
    exact congrArg _ (funext fun op => update_eq dest op us)
  | [] | .reg _ :: _ | .number .. :: _ | .word _ :: _ | .lparen :: _ | .rparen :: _
  | .comma :: _ => rfl

/-- An instruction that is no jump or call starts with its destination. -/
theorem instruction_operand {ts : List Token} (hret : ts ≠ [.word "return"])
    (happly : ∀ name us, ts ≠ .word name :: lparen :: us) (hgoto : ∀ us, ts ≠ .word "goto" :: us)
    (hcall : ∀ us, ts ≠ .word "call" :: us) :
    instruction ts = thenEnded (assigned ts) := by
  rw [instruction, assigned, thenEnded_bind]
  · exact congrArg _ (funext fun p => instructionBehind_eq p.1 p.2)
  · exact hret
  · exact happly
  · exact hgoto
  · exact hcall

/-- Without a parenthesis in front of it, the base stands alone. -/
theorem operand_base {ty : String} {ts : List Token} (h : ∀ us, ts ≠ lparen :: us) :
    operand (typeTokens ty ++ ts) =
      operand ts >>= fun (base, rest) => .ok (.mem ty base 0, rest) := by
  cases ts with
  | nil => rfl
  | cons t us => exact operand_direct fun ht => h us (congrArg (· :: us) ht)

theorem readCond_ne_lparen {ts : List Token} (h : ∀ us, ts ≠ lparen :: us) :
    readCond ts = expected .condOpen ts := by
  cases ts with
  | nil => exact readCond_nil
  | cons t us => exact readCond_ne fun ht => h us (congrArg (· :: us) ht)

theorem map_nil_append (r : Except GrammarError (List Arg × List Token)) :
    (r.map fun (args, rest) => ([] ++ args, rest)) = r := by
  cases r <;> rfl

theorem map_bind_result {γ : Type} (r : Except GrammarError α)
    (f : α → Except GrammarError β) (g : β → γ) : (r >>= f).map g = r >>= fun a => (f a).map g := by
  cases r <;> rfl

/-- What was read before is the longer by one argument. -/
theorem map_append_concat (before : List Arg) (a : Arg)
    (r : Except GrammarError (List Arg × List Token)) :
    (r.map fun (args, rest) => (before ++ [a] ++ args, rest)) =
      (r >>= fun (args, rest) => .ok (a :: args, rest)).map fun (args, rest) =>
        (before ++ args, rest) := by
  cases r with
  | error e => rfl
  | ok p => exact congrArg (fun args => Except.ok (args, p.2)) (List.append_assoc before [a] p.1)

/-- Reads an instruction. The word `return` alone is one only if no tokens were passed before it. -/
def instructionFrom (start : Bool) : List Token → Except GrammarError (Inst × List Token)
  | [.word "return"] => if start then .ok (.ret, []) else expected .assign []
  | ts => atEnd (instruction ts)

theorem instructionFrom_of_ne {start : Bool} {ts : List Token} (h : ts ≠ [.word "return"]) :
    instructionFrom start ts = atEnd (instruction ts) := by
  rw [instructionFrom]
  exact h

/-- The word `return` starts an assignment if it cannot be an instruction. -/
theorem instructionFrom_operand {start : Bool} {ts : List Token}
    (hret : start = true → ts ≠ [.word "return"])
    (happly : ∀ name us, ts ≠ .word name :: lparen :: us) (hgoto : ∀ us, ts ≠ .word "goto" :: us)
    (hcall : ∀ us, ts ≠ .word "call" :: us) :
    instructionFrom start ts = atEnd (thenEnded (assigned ts)) := by
  by_cases h : ts = [.word "return"]
  · obtain rfl : start = false := Bool.eq_false_iff.2 fun hs => hret hs h
    subst h
    rfl
  · rw [instructionFrom_of_ne h, instruction_operand h happly hgoto hcall]

/-- **A whole text** is read as an instruction with nothing left. -/
theorem instructionFrom_start (ts : List Token) :
    instructionFrom true ts = atEnd (instruction ts) := by
  unfold instructionFrom
  split <;> rfl

end FlowText
