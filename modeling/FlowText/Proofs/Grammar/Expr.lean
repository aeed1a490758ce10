import FlowText.Expr.Read
import FlowText.Proofs.Lexing

/-!
# The grammar of expressions

`IsExpr ts e` is the grammar as a relation: the tokens `ts` are a text of the expression `e`. The
reader decides it. It reads every such list of tokens whatever follows (`operand_append`), and it
reads nothing else (`exists_of_operand`).
-/

namespace FlowText

open Token (lparen rparen)

/-- A number with an optional minus sign, in the signed 64-bit range. -/
inductive IsSigned : List Token → Int64 → Radix → Prop where
  | pos {n : Nat} {r : Radix} {w : Int64} (h : w.toInt = n) : IsSigned [.number n r] w r
  | neg {n : Nat} {r : Radix} {w : Int64} (h : w.toInt = -n) :
    IsSigned [.symbol .minus, .number n r] w r

/-- The offset of a memory reference, which may be left out. -/
inductive IsOffset : List Token → Int64 → Prop where
  | none : IsOffset [] 0
  | plus {ts : List Token} {w : Int64} {r : Radix} (h : IsSigned ts w r) :
    IsOffset (.symbol .plus :: ts) w
  | minus {n : Nat} {r : Radix} {w : Int64} (h : w.toInt = -n) :
    IsOffset [.symbol .minus, .number n r] w

/-- The tokens in front of the base of a memory reference. -/
def typeTokens (ty : String) : List Token :=
  [.symbol .star, lparen, .word ty, .symbol .star, rparen]

/-- **Expressions.** The tokens are a text of the expression. -/
inductive IsExpr : List Token → Expr → Prop where
  | reg {name : String} : IsExpr [.reg name] (.reg name)
  | value {ts : List Token} {w : Int64} {r : Radix} (h : IsSigned ts w r) :
    IsExpr ts (.value w r)
  | addr {name : String} : IsExpr [.word name] (.addr name)
  | direct {ty : String} {ts : List Token} {base : Expr} (h : IsExpr ts base) :
    IsExpr (typeTokens ty ++ ts) (.mem ty base 0)
  | offset {ty : String} {ts os : List Token} {base : Expr} {w : Int64} (h : IsExpr ts base)
    (ho : IsOffset os w) :
    IsExpr (typeTokens ty ++ lparen :: (ts ++ (os ++ [rparen]))) (.mem ty base w)

/-- No expression starts with a parenthesis, which is how its base and a condition start. -/
theorem IsExpr.exists_cons {ts : List Token} {e : Expr} (h : IsExpr ts e) :
    ∃ t us, ts = t :: us ∧ t ≠ lparen := by
  cases h with
  | value h => cases h <;> exact ⟨_, _, rfl, nofun⟩
  | _ => exact ⟨_, _, rfl, nofun⟩

/-! ### Every text of an expression is read -/

/-- Another error does not change what is read. -/
theorem mapError_eq_ok_iff {ε ε' α : Type} {x : Except ε α} {f : ε → ε'} {a : α} :
    x.mapError f = .ok a ↔ x = .ok a := by
  cases x with
  | error e => simp [Except.mapError]
  | ok b => simp [Except.mapError]

theorem inRange_of_toInt {z : Int} {w : Int64} {r : Radix} {rest : List Token}
    (h : w.toInt = z) : inRange z r rest = .ok ((w, r), rest) := by
  rw [inRange, word?_eq_some_iff.2 h]

theorem signed_append {what : Expectation} {ts : List Token} {w : Int64} {r : Radix}
    (h : IsSigned ts w r) (rest : List Token) : signed what (ts ++ rest) = .ok ((w, r), rest) := by
  cases h with
  | pos h => exact inRange_of_toInt h
  | neg h => exact inRange_of_toInt h

theorem memOffset_append {os : List Token} {w : Int64} (h : IsOffset os w) (rest : List Token) :
    memOffset (os ++ rparen :: rest) = .ok (w, rparen :: rest) := by
  cases h with
  | none => rfl
  | plus h =>
    rw [List.cons_append, memOffset, signed_append h]
    rfl
  | @minus n r w h =>
    have hs : signed .offset _ = .ok ((w, r), rparen :: rest) :=
      signed_append (.neg h) (rparen :: rest)
    rw [List.cons_append, List.singleton_append] at hs
    rw [List.cons_append, List.singleton_append, memOffset, hs]
    rfl

theorem operand_direct {ty : String} {t : Token} {ts : List Token} (h : t ≠ lparen) :
    operand (typeTokens ty ++ t :: ts) = do
      let (base, rest) ← operand (t :: ts)
      return (.mem ty base 0, rest) := by
  cases t <;> first | exact absurd rfl h | rfl

theorem operand_offset {ty : String} {ts : List Token} :
    operand (typeTokens ty ++ lparen :: ts) = do
      let (base, rest) ← operand ts
      let (offset, rest) ← memOffset rest
      let rest ← closeBase rest
      return (.mem ty base offset, rest) := rfl

/-- **Completeness.** What is derived is read, whatever stands behind it. -/
theorem operand_append {ts : List Token} {e : Expr} (h : IsExpr ts e) (rest : List Token) :
    operand (ts ++ rest) = .ok (e, rest) := by
  induction h generalizing rest with
  | reg => rfl
  | value h =>
    have hs : signed .expression _ = .ok _ := signed_append h rest
    cases h with
    | pos h =>
      rw [List.singleton_append] at hs ⊢
      rw [operand, hs]
      · rfl
      all_goals exact nofun
    | neg h =>
      rw [List.cons_append, List.singleton_append] at hs ⊢
      rw [operand, hs]
      · rfl
      all_goals exact nofun
  | addr => rfl
  | @direct ty ts base h ih =>
    -- no parenthesis follows the type, so the base stands alone
    obtain ⟨t, us, rfl, ht⟩ := h.exists_cons
    have hr := ih rest
    rw [List.cons_append] at hr
    rw [List.append_assoc, List.cons_append, operand_direct ht, hr]
    rfl
  | offset h ho ih =>
    rw [List.append_assoc, List.cons_append, List.append_assoc, List.append_assoc,
      List.singleton_append, operand_offset, ih]
    change memOffset _ >>= _ = _
    rw [memOffset_append ho]
    rfl

/-! ### Nothing else is read -/

theorem exists_of_inRange {z : Int} {n : Int64 × Radix} {r : Radix} {ts rest : List Token}
    (h : inRange z r ts = .ok (n, rest)) : n.1.toInt = z ∧ n.2 = r ∧ rest = ts := by
  rw [inRange] at h
  split at h
  · next w hw =>
    cases h
    exact ⟨word?_eq_some_iff.1 hw, rfl, rfl⟩
  · cases h

theorem exists_of_signed {what : Expectation} {ts rest : List Token} {n : Int64 × Radix}
    (h : signed what ts = .ok (n, rest)) : ∃ us, ts = us ++ rest ∧ IsSigned us n.1 n.2 := by
  unfold signed at h
  split at h
  · obtain ⟨hw, rfl, rfl⟩ := exists_of_inRange h
    exact ⟨_, rfl, .neg hw⟩
  · obtain ⟨hw, rfl, rfl⟩ := exists_of_inRange h
    exact ⟨_, rfl, .pos hw⟩
  · cases h

theorem exists_of_memOffset {ts rest : List Token} {w : Int64}
    (h : memOffset ts = .ok (w, rest)) : ∃ os, ts = os ++ rest ∧ IsOffset os w := by
  unfold memOffset at h
  split at h
  · obtain ⟨⟨n, r⟩, hs, he⟩ := ok_of_map h
    cases he
    obtain ⟨us, rfl, hu⟩ := exists_of_signed hs
    exact ⟨_, rfl, .plus hu⟩
  · obtain ⟨⟨n, r⟩, hs, he⟩ := ok_of_map h
    cases he
    -- the reader has seen the minus sign, so only one of its cases is left
    unfold signed at hs
    split at hs
    · next heq =>
      obtain ⟨hw, -, rfl⟩ := exists_of_inRange hs
      rw [heq]
      exact ⟨_, rfl, .minus hw⟩
    · next heq =>
      cases heq
    · cases hs
  · cases h
    exact ⟨[], rfl, .none⟩

/-- **Soundness.** The cases are those of the reader. -/
theorem exists_of_operand {ts rest : List Token} {e : Expr} (h : operand ts = .ok (e, rest)) :
    ∃ us, ts = us ++ rest ∧ IsExpr us e := by
  fun_induction operand ts generalizing e rest with
  | case1 name ts =>
    cases h
    exact ⟨_, rfl, .reg⟩
  | case2 name ts =>
    cases h
    exact ⟨_, rfl, .addr⟩
  | case3 ty ts ih =>
    obtain ⟨⟨base, r₁⟩, hb, h⟩ := ok_of_bind h
    obtain ⟨⟨w, r₂⟩, ho, h⟩ := ok_of_bind h
    obtain ⟨r₃, hc, h⟩ := ok_of_bind h
    cases h
    obtain ⟨us, rfl, hu⟩ := ih hb
    obtain ⟨os, rfl, hos⟩ := exists_of_memOffset ho
    rw [eq_cons_of_closeBase hc]
    exact ⟨_, by simp [typeTokens], .offset hu hos⟩
  | case4 ty ts _ ih =>
    obtain ⟨⟨base, r⟩, hb, h⟩ := ok_of_bind h
    cases h
    obtain ⟨us, rfl, hu⟩ := ih hb
    exact ⟨_, by simp [typeTokens], .direct hu⟩
  | case5 => exact absurd h badMemType_ne_ok
  | case6 ts =>
    obtain ⟨⟨⟨w, r⟩, rest⟩, hs, he⟩ := ok_of_map h
    cases he
    obtain ⟨us, rfl, hu⟩ := exists_of_signed hs
    exact ⟨us, rfl, .value hu⟩

end FlowText
