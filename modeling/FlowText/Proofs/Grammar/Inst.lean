import FlowText.Inst.Read
import FlowText.Proofs.Grammar.Cond

/-!
# The grammar of instructions

`IsInst ts i` says which tokens are a text of an instruction, and the reader decides it
(`instruction_eq_ok_iff`). The words `goto` and `call` are no destinations: the reader takes them
for a jump or a call before it looks for an assignment.
-/

namespace FlowText

open Token (lparen rparen comma)

/-- **Arguments.** The tokens are a text of the argument. -/
inductive IsArg : List Token → Arg → Prop where
  | expr {ts : List Token} {e : Expr} (h : IsExpr ts e) : IsArg ts (.expr e)
  | cond {ts : List Token} {c : Cond} (h : IsCond ts c) : IsArg ts (.cond c)

/-- One or more arguments, with commas between them. -/
inductive IsArgs : List Token → List Arg → Prop where
  | one {ts : List Token} {a : Arg} (h : IsArg ts a) : IsArgs ts [a]
  | more {ts us : List Token} {a : Arg} {args : List Arg} (h : IsArg ts a) (hs : IsArgs us args) :
    IsArgs (ts ++ comma :: us) (a :: args)

/-- What stands between the parentheses of a call. -/
inductive IsArgList : List Token → List Arg → Prop where
  | none : IsArgList [] []
  | some {ts : List Token} {args : List Arg} (h : IsArgs ts args) : IsArgList ts args

/-- **Destinations.** An expression that no word for a jump stands for. -/
structure IsDest (ts : List Token) (d : Expr) : Prop where
  expr : IsExpr ts d
  ne_goto : d ≠ .addr "goto"
  ne_call : d ≠ .addr "call"

/-- **Instructions.** The tokens are a text of the instruction. -/
inductive IsInst : List Token → Inst → Prop where
  | ret : IsInst [.word "return"] .ret
  | goto {ts : List Token} {e : Expr} (h : IsExpr ts e) : IsInst (.word "goto" :: ts) (.goto e)
  | call {ts : List Token} {e : Expr} (h : IsExpr ts e) : IsInst (.word "call" :: ts) (.call e)
  | apply {name : String} {ts : List Token} {args : List Arg} (h : IsArgList ts args) :
    IsInst (.word name :: lparen :: (ts ++ [rparen])) (.named none name args)
  | applyTo {ds ts : List Token} {d : Expr} {name : String} {args : List Arg} (hd : IsDest ds d)
    (h : IsArgList ts args) :
    IsInst (ds ++ .assign :: .word name :: lparen :: (ts ++ [rparen])) (.named (some d) name args)
  | assign {ds ts : List Token} {d e : Expr} (hd : IsDest ds d) (h : IsExpr ts e) :
    IsInst (ds ++ .assign :: ts) (.assign d e)
  | binary {ds ls rs : List Token} {d l r : Expr} {s : Symbol} {op : BinOp} (hd : IsDest ds d)
    (hl : IsExpr ls l) (ho : BinOp.ofSymbol? s.text = some op) (hr : IsExpr rs r) :
    IsInst (ds ++ .assign :: (ls ++ .symbol s :: rs)) (.binary d op [l, r])
  | update {ds rs : List Token} {d r : Expr} {s : Symbol} {op : BinOp} (hd : IsDest ds d)
    (ho : BinOp.ofSymbol? s.text = some op) (hr : IsExpr rs r) :
    IsInst (ds ++ .symbol s :: .assign :: rs) (.binary d op [d, r])

/-! ### The equations of the reader -/

/-- Reads an argument, without the fact that it took up tokens. -/
def readArg (ts : List Token) : Except GrammarError (Arg × List Token) :=
  (argument ts).map Parse.toPair

/-- An argument that starts with a parenthesis is a condition. -/
theorem readArg_cond (inner : List Token) :
    readArg (lparen :: inner) = (readCond (lparen :: inner)).map
      fun (c, rest) => (.cond c, rest) := by
  rw [readArg, readCond, argument]
  cases condition (lparen :: inner) <;> rfl

/-- Any other argument is an expression. -/
theorem readArg_expr {ts : List Token} (h : ∀ us, ts ≠ lparen :: us) :
    readArg ts = (operand ts).map fun (e, rest) => (.expr e, rest) := by
  have hp : operand ts = (operandParse ts).map Parse.toPair := by
    rw [operandParse]
    split
    · next ho => exact ho
    · next ho => exact ho
  rw [readArg, argument, hp]
  · cases operandParse ts <;> rfl
  · exact h

/-- The loop over the arguments reads one, and goes on behind a comma. -/
theorem someArguments_eq (ts : List Token) :
    someArguments ts = (do
      let (a, rest) ← readArg ts
      match rest with
      | .comma :: more => do
        let (args, rest) ← someArguments more
        return (a :: args, rest)
      | .rparen :: rest => return ([a], rest)
      | rest => expected .argsNext rest) := by
  rw [someArguments, readArg]
  cases argument ts with
  | error e => rfl
  | ok a =>
    simp only [Except.map, Parse.toPair, bind, Except.bind]
    split <;> next heq => simp only [heq]

/-- Reads what stands behind the first operand on the right-hand side of an assignment. -/
def sourceBehind (dest left : Expr) : List Token → Except GrammarError Inst
  | [] => return .assign dest left
  | .symbol s :: ts => do
    let op ← binaryOp s
    let right ← lastOperand ts
    return .binary dest op [left, right]
  | rest => expected .operatorOrEnd rest

/-- Reads what stands behind the destination of an instruction. -/
def instructionBehind (dest : Expr) : List Token → Except GrammarError Inst
  | .assign :: ts => source dest ts
  | .symbol s :: ts => do update dest (← binaryOp s) ts
  | rest => expected .assign rest

/-- The last operand is an expression that is all there is left. -/
theorem lastOperand_of_isExpr {ts : List Token} {e : Expr} (h : IsExpr ts e) :
    lastOperand ts = .ok e := by
  have hr := operand_append h []
  rw [List.append_nil] at hr
  rw [lastOperand, hr]
  rfl

/-- At the end no token is left. -/
theorem eq_nil_of_ended {ts : List Token} {u : Unit} (h : ended ts = .ok u) : ts = [] := by
  unfold ended at h
  split at h
  · rfl
  · cases h

/-- What is read as the last operand is derived from all tokens. -/
theorem isExpr_of_lastOperand {ts : List Token} {e : Expr} (h : lastOperand ts = .ok e) :
    IsExpr ts e := by
  obtain ⟨⟨e', rest⟩, hr, h⟩ := ok_of_bind h
  obtain ⟨u, hu, h⟩ := ok_of_bind h
  cases h
  obtain ⟨us, rfl, hs⟩ := exists_of_operand hr
  rw [eq_nil_of_ended hu, List.append_nil]
  exact hs

/-- A sign is read as the binary operator that it stands for. -/
theorem binaryOp_eq_ok_iff {s : Symbol} {op : BinOp} :
    binaryOp s = .ok op ↔ BinOp.ofSymbol? s.text = some op := by
  rw [binaryOp]
  cases BinOp.ofSymbol? s.text <;> simp

/-- An expression whose text starts with a word is that word alone. -/
theorem IsExpr.addr_of_append {ts rest us : List Token} {e : Expr} {name : String}
    (h : IsExpr ts e) (heq : ts ++ rest = .word name :: us) : e = .addr name ∧ rest = us := by
  cases h with
  | addr =>
    cases heq
    exact ⟨rfl, rfl⟩
  | value h => cases h <;> cases heq
  | _ => cases heq

/-! ### Every text of an instruction is read -/

/-- **An argument** is read, whatever stands behind it. -/
theorem readArg_append {ts : List Token} {a : Arg} (h : IsArg ts a) (rest : List Token) :
    readArg (ts ++ rest) = .ok (a, rest) := by
  cases h with
  | expr h =>
    obtain ⟨t, us, hts, ht⟩ := h.exists_cons
    rw [readArg_expr, operand_append h]
    · rfl
    · intro vs he
      rw [hts] at he
      exact ht (List.cons.inj he).1
  | cond h =>
    have hc := readCond_append h rest
    obtain ⟨us, rfl⟩ := h.exists_cons
    rw [List.cons_append] at hc ⊢
    rw [readArg_cond, hc]
    rfl

/-- **Arguments** are read up to the closing parenthesis. -/
theorem someArguments_append {ts : List Token} {args : List Arg} (h : IsArgs ts args)
    (rest : List Token) : someArguments (ts ++ rparen :: rest) = .ok (args, rest) := by
  induction h with
  | one h =>
    rw [someArguments_eq, readArg_append h]
    rfl
  | more h hs ih =>
    rw [List.append_assoc, List.cons_append, someArguments_eq, readArg_append h]
    change someArguments _ >>= _ = _
    rw [ih]
    rfl

/-- Where there are arguments, there is no closing parenthesis yet. -/
theorem IsArgs.exists_cons {ts : List Token} {args : List Arg} (h : IsArgs ts args) :
    ∃ t us, ts = t :: us ∧ t ≠ rparen := by
  have harg : ∀ {ts a}, IsArg ts a → ∃ t us, ts = t :: us ∧ t ≠ rparen := by
    intro ts a h
    cases h with
    | expr h =>
      cases h with
      | value h => cases h <;> exact ⟨_, _, rfl, nofun⟩
      | _ => exact ⟨_, _, rfl, nofun⟩
    | cond h =>
      obtain ⟨us, rfl⟩ := h.exists_cons
      exact ⟨_, _, rfl, nofun⟩
  cases h with
  | one h => exact harg h
  | more h hs =>
    obtain ⟨t, us, rfl, ht⟩ := harg h
    exact ⟨_, _, rfl, ht⟩

/-- **A list of arguments**, be it empty or not. -/
theorem arguments_append {ts : List Token} {args : List Arg} (h : IsArgList ts args)
    (rest : List Token) : arguments (ts ++ rparen :: rest) = .ok (args, rest) := by
  cases h with
  | none => rfl
  | some h =>
    obtain ⟨t, us, hts, ht⟩ := h.exists_cons
    rw [arguments, someArguments_append h]
    intro vs he
    rw [hts] at he
    exact ht (List.cons.inj he).1

/-- **The call of a name** ends with its parenthesis. -/
theorem application_append {dest : Option Expr} {name : String} {ts : List Token}
    {args : List Arg} (h : IsArgList ts args) :
    application dest name (ts ++ [rparen]) = .ok (.named dest name args) := by
  rw [application, arguments_append h]
  rfl

/-- The right-hand side of an assignment is no call if it starts with an operand that no opening
parenthesis follows. -/
theorem source_append (dest : Expr) {left : Expr} {ts : List Token} (h : IsExpr ts left)
    (rest : List Token) (hr : rest.head? ≠ some lparen) :
    source dest (ts ++ rest) = sourceBehind dest left rest := by
  rw [source]
  · rw [operand_append h]
    rfl
  · intro name us he
    rw [(h.addr_of_append he).2] at hr
    exact hr rfl

/-- Behind the text of a destination, an instruction goes on with what may follow one. -/
theorem instruction_append {d : Expr} {ds : List Token} (h : IsDest ds d) {t : Token}
    (ht : t ≠ lparen) (ts : List Token) :
    instruction (ds ++ t :: ts) = instructionBehind d (t :: ts) := by
  rw [instruction]
  · rw [operand_append h.expr]
    rfl
  · intro he
    cases (h.expr.addr_of_append he).2
  · intro name us he
    exact ht (List.cons.inj (h.expr.addr_of_append he).2).1
  · intro us he
    exact h.ne_goto (h.expr.addr_of_append he).1
  · intro us he
    exact h.ne_call (h.expr.addr_of_append he).1

/-- The word for a jump is one unless a parenthesis stands behind it. -/
theorem instruction_goto {ts : List Token} (h : ∀ us, ts ≠ lparen :: us) :
    instruction (.word "goto" :: ts) = (lastOperand ts).map .goto := by
  rw [instruction]
  intro us he
  exact h us he

/-- So is the word for a call. -/
theorem instruction_call {ts : List Token} (h : ∀ us, ts ≠ lparen :: us) :
    instruction (.word "call" :: ts) = (lastOperand ts).map .call := by
  rw [instruction]
  intro us he
  exact h us he

/-- **Completeness.** What is derived from all tokens is read. -/
theorem instruction_of_isInst {ts : List Token} {i : Inst} (h : IsInst ts i) :
    instruction ts = .ok i := by
  have hlp : ∀ {ts e}, IsExpr ts e → ∀ us, ts ≠ lparen :: us := by
    rintro ts e h us rfl
    obtain ⟨t, vs, he, ht⟩ := h.exists_cons
    cases he
    exact ht rfl
  have hassign : Token.assign ≠ lparen := by
    intro he
    cases he
  cases h with
  | ret => rfl
  | goto h =>
    rw [instruction_goto (hlp h), lastOperand_of_isExpr h]
    rfl
  | call h =>
    rw [instruction_call (hlp h), lastOperand_of_isExpr h]
    rfl
  | apply h =>
    rw [instruction]
    exact application_append h
  | applyTo hd h =>
    rw [instruction_append hd hassign]
    exact application_append h
  | @assign ds ts d e hd h =>
    have hs := source_append d h [] (by simp)
    rw [List.append_nil] at hs
    rw [instruction_append hd hassign, instructionBehind, hs]
    rfl
  | @binary ds ls rs d l r s op hd hl ho hr =>
    have hs := source_append d hl (.symbol s :: rs) (by simp)
    rw [instruction_append hd hassign, instructionBehind, hs, sourceBehind,
      binaryOp_eq_ok_iff.2 ho, lastOperand_of_isExpr hr]
    rfl
  | @update ds rs d r s op hd ho hr =>
    rw [instruction_append hd (by simp), instructionBehind, binaryOp_eq_ok_iff.2 ho]
    change update _ _ (.assign :: _) = _
    rw [update, lastOperand_of_isExpr hr]
    rfl

/-! ### Nothing else is read -/

/-- **What is read is derived.** An argument. -/
theorem exists_of_readArg {ts rest : List Token} {a : Arg} (h : readArg ts = .ok (a, rest)) :
    ∃ us, ts = us ++ rest ∧ IsArg us a := by
  -- only a condition starts with a parenthesis
  by_cases hp : ∃ inner, ts = lparen :: inner
  · obtain ⟨inner, rfl⟩ := hp
    rw [readArg_cond] at h
    obtain ⟨⟨c, r⟩, hc, he⟩ := ok_of_map h
    cases he
    obtain ⟨us, hus, hs⟩ := exists_of_readCond hc
    exact ⟨us, hus, .cond hs⟩
  · rw [readArg_expr fun us hu => hp ⟨us, hu⟩] at h
    obtain ⟨⟨e, r⟩, he, heq⟩ := ok_of_map h
    cases heq
    obtain ⟨us, hus, hs⟩ := exists_of_operand he
    exact ⟨us, hus, .expr hs⟩

/-- An argument takes up tokens, so the induction is on the number of those that are left. -/
theorem exists_of_someArguments {n : Nat} {ts rest : List Token} {args : List Arg}
    (hn : ts.length ≤ n) (h : someArguments ts = .ok (args, rest)) :
    ∃ us, ts = us ++ rparen :: rest ∧ IsArgs us args := by
  induction n generalizing ts args with
  | zero =>
    obtain rfl := List.eq_nil_of_length_eq_zero (Nat.le_zero.1 hn)
    rw [someArguments_eq] at h
    obtain ⟨⟨a, r⟩, ha, -⟩ := ok_of_bind h
    have hr : readArg [] = (operand []).map _ := readArg_expr nofun
    rw [hr] at ha
    cases ha
  | succ n ih =>
    rw [someArguments_eq] at h
    obtain ⟨⟨a, r⟩, ha, h₁⟩ := ok_of_bind h
    obtain ⟨us, rfl, hu⟩ := exists_of_readArg ha
    match r with
    | [] => cases h₁
    | .comma :: more =>
      obtain ⟨⟨as, r'⟩, has, he⟩ := ok_of_bind h₁
      cases he
      have hlen : more.length ≤ n := by
        rw [List.length_append, List.length_cons] at hn
        omega
      obtain ⟨vs, rfl, hv⟩ := ih hlen has
      exact ⟨us ++ comma :: vs, by simp, .more hu hv⟩
    | .rparen :: more =>
      cases h₁
      exact ⟨us, rfl, .one hu⟩
    | .reg _ :: _ | .number .. :: _ | .word _ :: _ | .symbol _ :: _ | .lparen :: _
    | .assign :: _ => cases h₁

/-- A list of arguments. -/
theorem exists_of_arguments {ts rest : List Token} {args : List Arg}
    (h : arguments ts = .ok (args, rest)) :
    ∃ us, ts = us ++ rparen :: rest ∧ IsArgList us args := by
  unfold arguments at h
  split at h
  · cases h
    exact ⟨[], rfl, .none⟩
  · obtain ⟨us, hus, hs⟩ := exists_of_someArguments (Nat.le_refl _) h
    exact ⟨us, hus, .some hs⟩

/-- The call of a name. -/
theorem exists_of_application {dest : Option Expr} {name : String} {ts : List Token} {i : Inst}
    (h : application dest name ts = .ok i) :
    ∃ us args, ts = us ++ [rparen] ∧ IsArgList us args ∧ i = .named dest name args := by
  obtain ⟨⟨args, rest⟩, ha, h₁⟩ := ok_of_bind h
  obtain ⟨u, hu, h₂⟩ := ok_of_bind h₁
  cases h₂
  obtain ⟨us, rfl, hs⟩ := exists_of_arguments ha
  rw [eq_nil_of_ended hu]
  exact ⟨us, args, rfl, hs, rfl⟩

/-- What is read as the right-hand side of an assignment is that of an instruction. -/
theorem isInst_of_source {d : Expr} {ds ts : List Token} {i : Inst} (hd : IsDest ds d)
    (h : source d ts = .ok i) : IsInst (ds ++ .assign :: ts) i := by
  unfold source at h
  split at h
  · obtain ⟨us, args, rfl, ha, rfl⟩ := exists_of_application h
    exact .applyTo hd ha
  · obtain ⟨⟨l, rest⟩, hl, h₁⟩ := ok_of_bind h
    obtain ⟨ls, rfl, hls⟩ := exists_of_operand hl
    match rest with
    | [] =>
      cases h₁
      rw [List.append_nil]
      exact .assign hd hls
    | .symbol s :: rs =>
      obtain ⟨op, ho, h₂⟩ := ok_of_bind h₁
      obtain ⟨r, hr, h₃⟩ := ok_of_bind h₂
      cases h₃
      exact .binary hd hls (binaryOp_eq_ok_iff.1 ho) (isExpr_of_lastOperand hr)
    | .reg _ :: _ | .number .. :: _ | .word _ :: _ | .lparen :: _ | .rparen :: _ | .comma :: _
    | .assign :: _ => cases h₁

/-- An update in place. -/
theorem isInst_of_update {d : Expr} {op : BinOp} {s : Symbol} {ds ts : List Token} {i : Inst}
    (hd : IsDest ds d) (ho : BinOp.ofSymbol? s.text = some op) (h : update d op ts = .ok i) :
    IsInst (ds ++ .symbol s :: ts) i := by
  unfold update at h
  split at h
  · obtain ⟨r, hr, h₁⟩ := ok_of_bind h
    cases h₁
    exact .update hd ho (isExpr_of_lastOperand hr)
  · cases h

/-- **Soundness.** What is read is derived from all tokens. -/
theorem isInst_of_instruction {ts : List Token} {i : Inst} (h : instruction ts = .ok i) :
    IsInst ts i := by
  unfold instruction at h
  split at h
  · cases h
    exact .ret
  · obtain ⟨us, args, rfl, ha, rfl⟩ := exists_of_application h
    exact .apply ha
  · obtain ⟨e, he, rfl⟩ := ok_of_map h
    exact .goto (isExpr_of_lastOperand he)
  · obtain ⟨e, he, rfl⟩ := ok_of_map h
    exact .call (isExpr_of_lastOperand he)
  · next hgoto hcall =>
    obtain ⟨⟨d, rest⟩, hd, h₁⟩ := ok_of_bind h
    obtain ⟨ds, rfl, hds⟩ := exists_of_operand hd
    -- a destination named like a jump would have been taken for one
    have hdest : IsDest ds d := by
      refine ⟨hds, ?_, ?_⟩
      · rintro rfl
        cases hds
        exact hgoto _ rfl
      · rintro rfl
        cases hds
        exact hcall _ rfl
    match rest with
    | .assign :: us => exact isInst_of_source hdest h₁
    | .symbol s :: us =>
      obtain ⟨op, ho, h₂⟩ := ok_of_bind h₁
      exact isInst_of_update hdest (binaryOp_eq_ok_iff.1 ho) h₂
    | [] | .reg _ :: _ | .number .. :: _ | .word _ :: _ | .lparen :: _ | .rparen :: _
    | .comma :: _ => cases h₁

/-- **The reader decides the grammar.** -/
theorem instruction_eq_ok_iff {ts : List Token} {i : Inst} :
    instruction ts = .ok i ↔ IsInst ts i :=
  ⟨isInst_of_instruction, instruction_of_isInst⟩

end FlowText
