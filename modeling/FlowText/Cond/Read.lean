import FlowText.Cond
import FlowText.Expr.Read

/-!
# Reading conditions

    cond := '(' expr cmp expr ')' | '(' cond (logic cond)* ')'

`condition` reads a condition at the start of a list of tokens; `Cond.ofText` reads one that is a
whole text. Two opening parentheses tell that conditions are joined.
-/

namespace FlowText

/-- Something read from the start of a list of tokens. What is left of them is shorter, which bounds
every reader that goes on with the rest. -/
structure Parse (α : Type) (ts : List Token) where
  /-- what was read -/
  value : α
  /-- the tokens behind it -/
  rest : List Token
  /-- it took up at least one token -/
  shorter : rest.length < ts.length

/-- What was read, and the tokens behind it. -/
def Parse.toPair {α : Type} {ts : List Token} (s : Parse α ts) : α × List Token := (s.value, s.rest)

/-- Reads an expression. -/
def operandParse (ts : List Token) : Except GrammarError (Parse Expr ts) :=
  match h : operand ts with
  | .ok (e, rest) => .ok ⟨e, rest, length_lt_of_operand h⟩
  | .error e => .error e

/-- Reads a comparison symbol. -/
def comparison : List Token → Except GrammarError (Comparison × List Token)
  | .symbol s :: ts => ((Comparison.ofSymbol s.text).map (·, ts)).mapError .vocabulary
  | ts => expected .comparison ts

/-- Reads the closing parenthesis of a comparison. -/
def closeCond : List Token → Except GrammarError (List Token)
  | .rparen :: ts => .ok ts
  | ts => expected .condClose ts

/-- Reads one comparison behind its opening parenthesis. -/
def simple (ts : List Token) : Except GrammarError (Cond × List Token) := do
  let (lhs, rest) ← operand ts
  let (op, rest) ← comparison rest
  let (rhs, rest) ← operand rest
  let rest ← closeCond rest
  return (.simple lhs op rhs, rest)

/-- What a token says if it can be looked up among the connectives. -/
def connectiveWord? : Token → Option String
  | .symbol s => some s.text
  | .word w => some w
  | _ => none

theorem eq_cons_of_closeCond {ts rest : List Token} (h : closeCond ts = .ok rest) :
    ts = .rparen :: rest := by
  unfold closeCond at h
  split at h <;> cases h
  rfl

theorem length_lt_of_simple {ts rest : List Token} {c : Cond} (h : simple ts = .ok (c, rest)) :
    rest.length < ts.length := by
  obtain ⟨⟨l, r₁⟩, h₁, h⟩ := ok_of_bind h
  obtain ⟨⟨o, r₂⟩, h₂, h⟩ := ok_of_bind h
  obtain ⟨⟨e, r₃⟩, h₃, h⟩ := ok_of_bind h
  obtain ⟨r₄, h₄, h⟩ := ok_of_bind h
  cases h
  have hl := length_lt_of_operand h₁
  have hr := length_lt_of_operand h₃
  have ho : r₂.length ≤ r₁.length := by
    unfold comparison at h₂
    split at h₂
    · cases hs : Comparison.ofSymbol ‹Symbol›.text with
      | error e => rw [hs] at h₂; cases h₂
      | ok op =>
        rw [hs] at h₂
        cases h₂
        exact Nat.le_succ _
    · cases h₂
  have hc := congrArg List.length (eq_cons_of_closeCond h₄)
  simp only [List.length_cons] at hc
  omega

mutual

/-- **Condition.** Reads a condition. -/
def condition (ts : List Token) : Except GrammarError (Parse Cond ts) :=
  match ts with
  | .lparen :: .lparen :: inner => do
    let first ← condition (.lparen :: inner)
    let chain ← conditions (.single first.value) first.rest
    return ⟨.compound chain.value, chain.rest, by
      have := first.shorter
      have := chain.shorter
      simp only [List.length_cons] at *
      omega⟩
  | .lparen :: inner =>
    match h : simple inner with
    | .ok (c, rest) => .ok ⟨c, rest, Nat.lt_succ_of_lt (length_lt_of_simple h)⟩
    | .error e => .error e
  | ts => expected .condOpen ts
termination_by ts.length
decreasing_by
  · simp
  · have := first.shorter
    simp only [List.length_cons] at *
    omega

/-- Reads the conditions that are joined to a chain, up to the closing parenthesis. -/
def conditions (chain : Chain) (ts : List Token) : Except GrammarError (Parse Chain ts) :=
  match ts with
  | [] => expected .connective []
  | .rparen :: rest => .ok ⟨chain, rest, by simp⟩
  | t :: rest =>
    match connectiveWord? t with
    | none => expected .connective (t :: rest)
    | some word => do
      let op ← (Connective.ofWord word).mapError .vocabulary
      let next ← condition rest
      let longer ← conditions (.join chain op next.value) next.rest
      return ⟨longer.value, longer.rest, by
        have := next.shorter
        have := longer.shorter
        simp only [List.length_cons]
        omega⟩
termination_by ts.length
decreasing_by
  · simp
  · have := next.shorter
    simp only [List.length_cons] at *
    omega

end

/-- **Read.** The condition that a text is. -/
def Cond.ofText (input : String) : Except TextError Cond :=
  readText (fun ts => do let c ← condition ts; ended c.rest; return c.value) input

end FlowText
