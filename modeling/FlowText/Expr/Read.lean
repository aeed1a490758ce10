import FlowText.Error
import FlowText.Expr

/-!
# Reading expressions

    expr   := reg | signed | word | '*' '(' word '*' ')' base
    base   := expr | '(' expr [offset] ')'
    offset := '+' signed | '-' number
    signed := ['-'] number

`operand` reads an expression at the start of a list of tokens; `Expr.ofText` reads one that is a
whole text.
-/

namespace FlowText

/-- Reports what is needed next, and the token that stands there instead. -/
def expected {α : Type} (what : Expectation) (ts : List Token) : Except GrammarError α :=
  .error (.expected what ts.head?)

/-- The tokens are used up. -/
def ended : List Token → Except GrammarError Unit
  | [] => .ok ()
  | ts => expected .endOfInput ts

/-- The word of a number, with its radix and what follows the number. -/
def inRange (z : Int) (radix : Radix) (rest : List Token) :
    Except GrammarError ((Int64 × Radix) × List Token) :=
  match word? z with
  | some w => .ok ((w, radix), rest)
  | none => .error .outOfRange

/-- Reads a number with an optional minus sign. -/
def signed (what : Expectation) : List Token → Except GrammarError ((Int64 × Radix) × List Token)
  | .symbol .minus :: .number n radix :: ts => inRange (-n) radix ts
  | .number n radix :: ts => inRange n radix ts
  | ts => expected what ts

/-- Reads an optional offset. A minus sign belongs to the number behind it, and behind a plus sign
the number may have one of its own. -/
def memOffset : List Token → Except GrammarError (Int64 × List Token)
  | .symbol .plus :: ts => (signed .offset ts).map fun ((w, _), rest) => (w, rest)
  | .symbol .minus :: ts =>
    (signed .offset (.symbol .minus :: ts)).map fun ((w, _), rest) => (w, rest)
  | ts => .ok (0, ts)

/-- Reports which part of a memory type is missing, given what follows the star before it. -/
def badMemType {α : Type} : List Token → Except GrammarError α
  | .lparen :: .word _ :: .symbol .star :: ts => expected .typeClose ts
  | .lparen :: .word _ :: ts => expected .typeStar ts
  | .lparen :: ts => expected .typeName ts
  | ts => expected .typeOpen ts

/-- Reads the closing parenthesis behind the base of a memory reference. -/
def closeBase : List Token → Except GrammarError (List Token)
  | .rparen :: ts => .ok ts
  | ts => expected .baseClose ts

/-- **Operand.** Reads an expression, and gives back the tokens behind it. -/
def operand : List Token → Except GrammarError (Expr × List Token)
  | .reg name :: ts => .ok (.reg name, ts)
  | .word name :: ts => .ok (.addr name, ts)
  | .symbol .star :: .lparen :: .word ty :: .symbol .star :: .rparen :: .lparen :: ts => do
    let (base, rest) ← operand ts
    let (offset, rest) ← memOffset rest
    let rest ← closeBase rest
    return (.mem ty base offset, rest)
  | .symbol .star :: .lparen :: .word ty :: .symbol .star :: .rparen :: ts => do
    let (base, rest) ← operand ts
    return (.mem ty base 0, rest)
  | .symbol .star :: ts => badMemType ts
  | ts => (signed .expression ts).map fun ((w, radix), rest) => (.value w radix, rest)

/-! ### What is left is shorter -/

theorem ok_of_bind {ε α β : Type} {x : Except ε α} {f : α → Except ε β} {b : β}
    (h : x >>= f = .ok b) : ∃ a, x = .ok a ∧ f a = .ok b := by
  cases x with
  | error e => cases h
  | ok a => exact ⟨a, rfl, h⟩

theorem ok_of_map {ε α β : Type} {x : Except ε α} {f : α → β} {b : β}
    (h : x.map f = .ok b) : ∃ a, x = .ok a ∧ f a = b := by
  cases x with
  | error e => cases h
  | ok a => exact ⟨a, rfl, Except.ok.inj h⟩

theorem error_of_map {ε α β : Type} {x : Except ε α} {f : α → β} {e : ε}
    (h : x.map f = .error e) : x = .error e := by
  cases x with
  | error e' => exact congrArg Except.error (Except.error.inj h)
  | ok a => cases h

theorem rest_of_inRange {z : Int} {radix : Radix} {ts rest : List Token} {n : Int64 × Radix}
    (h : inRange z radix ts = .ok (n, rest)) : rest = ts := by
  unfold inRange at h
  generalize word? z = w at h
  cases w with
  | none => cases h
  | some w => exact (congrArg Prod.snd (Except.ok.inj h)).symm

theorem length_lt_of_signed {what : Expectation} {ts rest : List Token} {n : Int64 × Radix}
    (h : signed what ts = .ok (n, rest)) : rest.length < ts.length := by
  unfold signed at h
  split at h
  · rw [rest_of_inRange h]
    simp only [List.length_cons]
    omega
  · rw [rest_of_inRange h]
    simp
  · cases h

theorem length_le_of_memOffset {ts rest : List Token} {w : Int64}
    (h : memOffset ts = .ok (w, rest)) : rest.length ≤ ts.length := by
  unfold memOffset at h
  split at h
  · obtain ⟨⟨n, r⟩, hs, he⟩ := ok_of_map h
    cases he
    exact Nat.le_succ_of_le (Nat.le_of_lt (length_lt_of_signed hs))
  · obtain ⟨⟨n, r⟩, hs, he⟩ := ok_of_map h
    cases he
    exact Nat.le_of_lt (length_lt_of_signed hs)
  · cases h; exact Nat.le_refl _

theorem eq_cons_of_closeBase {ts rest : List Token} (h : closeBase ts = .ok rest) :
    ts = .rparen :: rest := by
  unfold closeBase at h
  split at h <;> cases h
  rfl

theorem badMemType_ne_ok {α : Type} {ts : List Token} {a : α} : badMemType ts ≠ .ok a := by
  unfold badMemType
  split <;> exact nofun

/-- An expression takes up at least one token. -/
theorem length_lt_of_operand {ts rest : List Token} {e : Expr}
    (h : operand ts = .ok (e, rest)) : rest.length < ts.length := by
  fun_induction operand ts generalizing e rest with
  | case1 => cases h; simp
  | case2 => cases h; simp
  | case3 ty ts ih =>
    obtain ⟨⟨b, r⟩, hb, h⟩ := ok_of_bind h
    obtain ⟨⟨o, r'⟩, ho, h⟩ := ok_of_bind h
    obtain ⟨r'', hc, h⟩ := ok_of_bind h
    cases h
    have h₁ := ih hb
    have h₂ := length_le_of_memOffset ho
    have h₃ := congrArg List.length (eq_cons_of_closeBase hc)
    simp only [List.length_cons] at *
    omega
  | case4 ty ts _ ih =>
    obtain ⟨⟨b, r⟩, hb, h⟩ := ok_of_bind h
    cases h
    have := ih hb
    simp only [List.length_cons]
    omega
  | case5 => exact absurd h badMemType_ne_ok
  | case6 ts =>
    obtain ⟨⟨n, r⟩, hs, he⟩ := ok_of_map h
    cases he
    exact length_lt_of_signed hs

/-- Reads a whole text, given how its tokens are read. -/
def readText {α : Type} (read : List Token → Except GrammarError α) (input : String) :
    Except TextError α := do
  let ts ← (lex input.toList).mapError .lexical
  (read ts).mapError .grammar

/-- Tells on which line a text was found that is not what was to be read. -/
def onLine {α : Type} (line : Nat) (ofText : String → Except TextError α) (input : String) :
    Except Error α :=
  (ofText input).mapError fun e => .parse line (.text input e)

/-- **Read.** The expression that a text is. -/
def Expr.ofText (input : String) : Except TextError Expr :=
  readText (fun ts => do let (e, rest) ← operand ts; ended rest; return e) input

end FlowText
