import FlowText.Proofs.Grammar.Tree
import FlowText.Proofs.ReadBack

/-!
# Derivations are unique

Where one derivation starts in a list of tokens, no other one of its kind does: neither goes on
behind the end of the other (`ExprTree.eq_of_append`, `CondTree.eq_of_append`,
`ArgTree.eq_of_append`). So tokens have at most one derivation, and the readers accept a text if and
only if its tokens have one (`readers_decide_grammar`).
-/

namespace FlowText

open Token (lparen rparen comma)

/-! ### Expressions -/

/-- **A tree is known by its tokens**, whatever stands behind them. A number. -/
theorem SignedTree.eq_of_append {a b : SignedTree} {r s : List Token}
    (h : a.tokens ++ r = b.tokens ++ s) : a = b ∧ r = s := by
  cases a <;> cases b <;> cases h <;> exact ⟨rfl, rfl⟩

/-- An offset ends in front of a closing parenthesis, with which none starts. -/
theorem OffsetTree.eq_of_append {a b : OffsetTree} {r s : List Token}
    (h : a.tokens ++ rparen :: r = b.tokens ++ rparen :: s) : a = b ∧ r = s := by
  cases a with
  | none =>
    cases b <;> cases h
    exact ⟨rfl, rfl⟩
  | plus n =>
    cases b with
    | plus m =>
      obtain ⟨rfl, he⟩ := SignedTree.eq_of_append (List.cons.inj h).2
      exact ⟨rfl, (List.cons.inj he).2⟩
    | _ => cases h
  | minus n radix fits =>
    cases b <;> cases h
    exact ⟨rfl, rfl⟩

/-- A type. -/
theorem eq_of_typeTokens_append {ty ty' : String} {r s : List Token}
    (h : typeTokens ty ++ r = typeTokens ty' ++ s) : ty = ty' ∧ r = s := by
  cases h
  exact ⟨rfl, rfl⟩

namespace ExprTree

/-- No expression starts with a parenthesis. -/
theorem exists_cons (e : ExprTree) : ∃ t us, e.tokens = t :: us ∧ t ≠ lparen :=
  e.isExpr.exists_cons

/-- So none is taken for a condition, or for a base in parentheses. -/
theorem append_ne_lparen (e : ExprTree) {r s : List Token} : e.tokens ++ r ≠ lparen :: s := by
  intro h
  obtain ⟨t, us, he, ht⟩ := e.exists_cons
  rw [he] at h
  exact ht (List.cons.inj h).1

/-- The first token tells the kind of an expression; behind a type, a parenthesis tells whether the
base stands alone. -/
theorem eq_of_append {a b : ExprTree} {r s : List Token} (h : a.tokens ++ r = b.tokens ++ s) :
    a = b ∧ r = s := by
  induction a generalizing b r s with
  | reg name =>
    cases b with
    | reg name' =>
      cases h
      exact ⟨rfl, rfl⟩
    | signed m => cases m <;> cases h
    | _ => cases h
  | signed n =>
    cases b with
    | signed m =>
      obtain ⟨rfl, rfl⟩ := SignedTree.eq_of_append h
      exact ⟨rfl, rfl⟩
    | _ => cases n <;> cases h
  | word name =>
    cases b with
    | word name' =>
      cases h
      exact ⟨rfl, rfl⟩
    | signed m => cases m <;> cases h
    | _ => cases h
  | direct ty base ih =>
    cases b with
    | direct ty' base' =>
      rw [tokens, tokens, List.append_assoc, List.append_assoc] at h
      obtain ⟨rfl, hbase⟩ := eq_of_typeTokens_append h
      obtain ⟨rfl, rfl⟩ := ih hbase
      exact ⟨rfl, rfl⟩
    | grouped ty' base' offset' =>
      rw [tokens, tokens, List.append_assoc, List.append_assoc] at h
      exact absurd (eq_of_typeTokens_append h).2 base.append_ne_lparen
    | signed m => cases m <;> cases h
    | _ => cases h
  | grouped ty base offset ih =>
    cases b with
    | direct ty' base' =>
      rw [tokens, tokens, List.append_assoc, List.append_assoc] at h
      exact absurd (eq_of_typeTokens_append h).2.symm base'.append_ne_lparen
    | grouped ty' base' offset' =>
      simp only [tokens, List.append_assoc, List.cons_append, List.nil_append] at h
      obtain ⟨rfl, hgroup⟩ := eq_of_typeTokens_append h
      obtain ⟨rfl, hoffset⟩ := ih (List.cons.inj hgroup).2
      obtain ⟨rfl, rfl⟩ := OffsetTree.eq_of_append hoffset
      exact ⟨rfl, rfl⟩
    | signed m => cases m <;> cases h
    | _ => cases h

end ExprTree

/-! ### Conditions -/

/-- Comparisons have different signs. -/
theorem Comparison.toSymbol_inj {a b : Comparison} (h : a.toSymbol = b.toSymbol) : a = b := by
  cases a <;> cases b <;> first | rfl | cases h

/-- Binary operators have different signs. -/
theorem BinOp.toSymbol_inj {a b : BinOp} (h : a.toSymbol = b.toSymbol) : a = b := by
  cases a <;> cases b <;> first | rfl | cases h

/-- Connectives have different signs and names. -/
theorem Joint.token_inj {a b : Joint} (h : a.token = b.token) : a = b := by
  rcases a with ⟨_ | _⟩ | ⟨_ | _⟩ <;> rcases b with ⟨_ | _⟩ | ⟨_ | _⟩ <;>
    simp [Joint.token, Connective.toSymbol] at h ⊢

/-- None of them ends a compound. -/
theorem Joint.token_ne_rparen (j : Joint) : j.token ≠ rparen := by
  rcases j with _ | ⟨_ | _⟩ <;> exact nofun

/-- Every condition starts with a parenthesis. -/
theorem CondTree.exists_cons (c : CondTree) : ∃ us, c.tokens = lparen :: us :=
  c.isCond.exists_cons

mutual

/-- Two parentheses in a row open a compound. -/
theorem CondTree.eq_of_append {a b : CondTree} {r s : List Token}
    (h : a.tokens ++ r = b.tokens ++ s) : a = b ∧ r = s := by
  match a, b with
  | .simple l op e, .simple l' op' e' =>
    simp only [CondTree.tokens, List.append_assoc, List.cons_append, List.nil_append] at h
    obtain ⟨rfl, hop⟩ := ExprTree.eq_of_append (List.cons.inj h).2
    obtain ⟨hsymbol, hright⟩ := List.cons.inj hop
    obtain rfl := Comparison.toSymbol_inj (Token.symbol.inj hsymbol)
    obtain ⟨rfl, hrest⟩ := ExprTree.eq_of_append hright
    exact ⟨rfl, (List.cons.inj hrest).2⟩
  | .compound c m, .compound c' m' =>
    simp only [CondTree.tokens, List.append_assoc, List.cons_append, List.nil_append] at h
    obtain ⟨rfl, hmore⟩ := CondTree.eq_of_append (List.cons.inj h).2
    obtain ⟨rfl, rfl⟩ := TailTree.eq_of_append hmore
    exact ⟨rfl, rfl⟩
  | .simple l op e, .compound c m =>
    obtain ⟨us, hc⟩ := c.exists_cons
    simp only [CondTree.tokens, hc, List.append_assoc, List.cons_append, List.nil_append] at h
    exact absurd (List.cons.inj h).2 l.append_ne_lparen
  | .compound c m, .simple l op e =>
    obtain ⟨us, hc⟩ := c.exists_cons
    simp only [CondTree.tokens, hc, List.append_assoc, List.cons_append, List.nil_append] at h
    exact absurd (List.cons.inj h).2.symm l.append_ne_lparen

/-- A compound goes on up to the parenthesis that closes it. -/
theorem TailTree.eq_of_append {a b : TailTree} {r s : List Token}
    (h : a.tokens ++ rparen :: r = b.tokens ++ rparen :: s) : a = b ∧ r = s := by
  match a, b with
  | .done, .done => exact ⟨rfl, (List.cons.inj h).2⟩
  | .join j c m, .join j' c' m' =>
    simp only [TailTree.tokens, List.append_assoc, List.cons_append] at h
    obtain ⟨hjoint, hnext⟩ := List.cons.inj h
    obtain rfl := Joint.token_inj hjoint
    obtain ⟨rfl, hmore⟩ := CondTree.eq_of_append hnext
    obtain ⟨rfl, rfl⟩ := TailTree.eq_of_append hmore
    exact ⟨rfl, rfl⟩
  | .done, .join j c m => exact absurd (List.cons.inj h).1.symm j.token_ne_rparen
  | .join j c m, .done => exact absurd (List.cons.inj h).1 j.token_ne_rparen

end

/-! ### Arguments -/

namespace ArgTree

/-- Only a condition starts with a parenthesis. -/
theorem eq_of_append {a b : ArgTree} {r s : List Token} (h : a.tokens ++ r = b.tokens ++ s) :
    a = b ∧ r = s := by
  cases a with
  | expr e =>
    cases b with
    | expr f =>
      obtain ⟨rfl, rfl⟩ := ExprTree.eq_of_append h
      exact ⟨rfl, rfl⟩
    | cond c =>
      obtain ⟨us, hc⟩ := c.exists_cons
      rw [tokens, tokens, hc] at h
      exact absurd h e.append_ne_lparen
  | cond c =>
    cases b with
    | expr e =>
      obtain ⟨us, hc⟩ := c.exists_cons
      rw [tokens, tokens, hc] at h
      exact absurd h.symm e.append_ne_lparen
    | cond d =>
      obtain ⟨rfl, rfl⟩ := CondTree.eq_of_append h
      exact ⟨rfl, rfl⟩

/-- Where there are arguments, they are not at their end. -/
theorem listTokens_append_ne_rparen (a : ArgTree) (more : List ArgTree) {r s : List Token} :
    listTokens (a :: more) ++ r ≠ rparen :: s := by
  intro h
  obtain ⟨t, us, ha, ht⟩ := (a.isArgs more).exists_cons
  rw [ha] at h
  exact ht (List.cons.inj h).1

/-- A list of arguments ends in front of a closing parenthesis, and no argument starts with one. -/
theorem list_eq_of_append {as bs : List ArgTree} {r s : List Token}
    (h : listTokens as ++ rparen :: r = listTokens bs ++ rparen :: s) : as = bs ∧ r = s := by
  induction as generalizing bs with
  | nil =>
    cases bs with
    | nil => exact ⟨rfl, (List.cons.inj h).2⟩
    | cons b bs => exact absurd h.symm (listTokens_append_ne_rparen b bs)
  | cons a as ih =>
    cases bs with
    | nil => exact absurd h (listTokens_append_ne_rparen a as)
    | cons b bs =>
      -- behind the first argument stands a comma, or it is the only one
      cases as with
      | nil =>
        cases bs with
        | nil =>
          obtain ⟨rfl, he⟩ := eq_of_append h
          exact ⟨rfl, (List.cons.inj he).2⟩
        | cons d ds =>
          rw [listTokens, listTokens, List.append_assoc] at h
          cases (eq_of_append h).2
      | cons c cs =>
        cases bs with
        | nil =>
          rw [listTokens, listTokens, List.append_assoc] at h
          cases (eq_of_append h).2
        | cons d ds =>
          rw [listTokens, listTokens, List.append_assoc, List.append_assoc] at h
          obtain ⟨rfl, he⟩ := eq_of_append h
          obtain ⟨hmore, rfl⟩ := ih (List.cons.inj he).2
          rw [hmore]
          exact ⟨rfl, rfl⟩

end ArgTree

/-! ### Instructions -/

/-- Derivations of the same tokens denote the same instruction, since these are read as it. -/
theorem InstTree.value_eq_of_tokens_eq {a b : InstTree} (h : a.tokens = b.tokens) :
    a.value = b.value := by
  have ha := instruction_of_isInst a.isInst
  rw [h, instruction_of_isInst b.isInst] at ha
  exact (Except.ok.inj ha).symm

/-- A destination. -/
theorem DestTree.eq_of_append {a b : DestTree} {r s : List Token}
    (h : a.expr.tokens ++ r = b.expr.tokens ++ s) : a = b ∧ r = s := by
  cases a
  cases b
  obtain ⟨rfl, rfl⟩ := ExprTree.eq_of_append h
  exact ⟨rfl, rfl⟩

/-- An expression has one tree. -/
theorem ExprTree.tokens_inj {a b : ExprTree} (h : a.tokens = b.tokens) : a = b :=
  (eq_of_append (congrArg (· ++ []) h)).1

/-- A condition has one tree. -/
theorem CondTree.tokens_inj {a b : CondTree} (h : a.tokens = b.tokens) : a = b :=
  (eq_of_append (congrArg (· ++ []) h)).1

/-- The instruction tells the kind of a derivation, up to the two ways of writing an operator. -/
theorem InstTree.tokens_inj {a b : InstTree} (h : a.tokens = b.tokens) : a = b := by
  have hv := value_eq_of_tokens_eq h
  have hop : a.value.op = b.value.op := by rw [hv]
  cases a with
  | ret => cases b <;> first | rfl | cases hv
  | goto target =>
    cases b with
    | goto target' => rw [ExprTree.tokens_inj (List.cons.inj h).2]
    | _ => cases hv
  | call target =>
    cases b with
    | call target' => rw [ExprTree.tokens_inj (List.cons.inj h).2]
    | _ => cases hv
  | apply name args =>
    cases b with
    | apply name' args' =>
      obtain ⟨hname, hargs⟩ := List.cons.inj h
      obtain rfl := Token.word.inj hname
      rw [(ArgTree.list_eq_of_append (List.cons.inj hargs).2).1]
    | _ => cases hv
  | applyTo dest name args =>
    cases b with
    | applyTo dest' name' args' =>
      obtain ⟨rfl, hcall⟩ := DestTree.eq_of_append h
      obtain ⟨hname, hargs⟩ := List.cons.inj (List.cons.inj hcall).2
      obtain rfl := Token.word.inj hname
      rw [(ArgTree.list_eq_of_append (List.cons.inj hargs).2).1]
    | apply name' args' => cases hv
    | _ => cases hop
  | assign dest source =>
    cases b with
    | assign dest' source' =>
      obtain ⟨rfl, hsource⟩ := DestTree.eq_of_append h
      rw [ExprTree.tokens_inj (List.cons.inj hsource).2]
    | _ => cases hop
  | binary dest left op right =>
    cases b with
    | binary dest' left' op' right' =>
      obtain ⟨rfl, hsource⟩ := DestTree.eq_of_append h
      obtain ⟨rfl, hbehind⟩ := ExprTree.eq_of_append (List.cons.inj hsource).2
      obtain ⟨hsymbol, hright⟩ := List.cons.inj hbehind
      obtain rfl := BinOp.toSymbol_inj (Token.symbol.inj hsymbol)
      rw [ExprTree.tokens_inj hright]
    | update dest' op' right' => cases (DestTree.eq_of_append h).2
    | _ => cases hop
  | update dest op right =>
    cases b with
    | binary dest' left' op' right' => cases (DestTree.eq_of_append h).2
    | update dest' op' right' =>
      obtain ⟨rfl, hbehind⟩ := DestTree.eq_of_append h
      obtain ⟨hsymbol, hright⟩ := List.cons.inj hbehind
      obtain rfl := BinOp.toSymbol_inj (Token.symbol.inj hsymbol)
      rw [ExprTree.tokens_inj (List.cons.inj hright).2]
    | _ => cases hop

/-! ### What the readers accept -/

/-- **The grammar decides.** A reader accepts tokens if and only if they have a derivation; they
have at most one, and what is read is the value that it denotes. -/
structure Decides {α τ : Type} (tokens : τ → List Token) (value : τ → α) (ts : List Token)
    (result : Except TextError α) : Prop where
  accepted_iff : (∃ a, result = .ok a) ↔ ∃ tree, tokens tree = ts
  unique : ∀ tree tree', tokens tree = ts → tokens tree' = ts → tree = tree'
  denoted : ∀ tree, tokens tree = ts → result = .ok (value tree)

/-- The derivations of a reader whose values are those of a relation decide it. -/
theorem decides_of_eq_ok_iff {α τ : Type} {tokens : τ → List Token} {value : τ → α}
    {ts : List Token} {result : Except TextError α}
    (hok : ∀ a, result = .ok a ↔ ∃ tree, tokens tree = ts ∧ value tree = a)
    (hinj : ∀ tree tree', tokens tree = tokens tree' → tree = tree') :
    Decides tokens value ts result where
  accepted_iff := by
    constructor
    · rintro ⟨a, ha⟩
      obtain ⟨tree, htree, -⟩ := (hok a).1 ha
      exact ⟨tree, htree⟩
    · rintro ⟨tree, htree⟩
      exact ⟨value tree, (hok _).2 ⟨tree, htree, rfl⟩⟩
  unique tree tree' h h' := hinj tree tree' (h.trans h'.symm)
  denoted tree h := (hok _).2 ⟨tree, h, rfl⟩

/-- **Expressions** are read from the texts whose tokens have a tree. -/
theorem Expr.ofText_eq_ok_iff_exists_tree {s : String} {ts : List Token}
    (hl : lex s.toList = .ok ts) (e : Expr) :
    Expr.ofText s = .ok e ↔ ∃ tree : ExprTree, tree.tokens = ts ∧ tree.value = e := by
  rw [Expr.ofText_eq_ok_iff]
  constructor
  · rintro ⟨us, hus, h⟩
    obtain rfl := Except.ok.inj (hl.symm.trans hus)
    exact h.exists_tree
  · rintro ⟨tree, rfl, rfl⟩
    exact ⟨_, hl, tree.isExpr⟩

/-- **Conditions** are read from the texts whose tokens have a tree. -/
theorem Cond.ofText_eq_ok_iff_exists_tree {s : String} {ts : List Token}
    (hl : lex s.toList = .ok ts) (c : Cond) :
    Cond.ofText s = .ok c ↔ ∃ tree : CondTree, tree.tokens = ts ∧ tree.value = c := by
  rw [Cond.ofText_eq_ok_iff]
  constructor
  · rintro ⟨us, hus, h⟩
    obtain rfl := Except.ok.inj (hl.symm.trans hus)
    exact h.exists_tree (proper_of_lex hl)
  · rintro ⟨tree, rfl, rfl⟩
    exact ⟨_, hl, tree.isCond⟩

/-- **Instructions** are read from the texts whose tokens have a tree. -/
theorem Inst.ofText_eq_ok_iff_exists_tree {s : String} {ts : List Token}
    (hl : lex s.toList = .ok ts) (i : Inst) :
    Inst.ofText s = .ok i ↔ ∃ tree : InstTree, tree.tokens = ts ∧ tree.value = i := by
  rw [Inst.ofText_eq_ok_iff]
  constructor
  · rintro ⟨us, hus, h⟩
    obtain rfl := Except.ok.inj (hl.symm.trans hus)
    exact h.exists_tree (proper_of_lex hl)
  · rintro ⟨tree, rfl, rfl⟩
    exact ⟨_, hl, tree.isInst⟩

/-- A text without tokens is refused for what the lexer found. -/
theorem readText_of_lex_error {α : Type} {read : List Token → Except GrammarError α} {s : String}
    {e : LexError} (hl : lex s.toList = .error e) : readText read s = .error (.lexical e) := by
  rw [readText, hl]
  rfl

/-- **The readers accept their grammar.** A text that is no list of tokens is rejected. Tokens are
accepted as an expression, a condition or an instruction if and only if they have a derivation of
that kind, which is then the only one, and what is read is the value that it denotes. -/
theorem readers_decide_grammar (s : String) :
    (∀ e, lex s.toList = .error e → Expr.ofText s = .error (.lexical e) ∧
      Cond.ofText s = .error (.lexical e) ∧ Inst.ofText s = .error (.lexical e)) ∧
    ∀ ts, lex s.toList = .ok ts →
      Decides ExprTree.tokens ExprTree.value ts (Expr.ofText s) ∧
      Decides CondTree.tokens CondTree.value ts (Cond.ofText s) ∧
      Decides InstTree.tokens InstTree.value ts (Inst.ofText s) := by
  constructor
  · intro e hl
    exact ⟨readText_of_lex_error hl, readText_of_lex_error hl, readText_of_lex_error hl⟩
  · intro ts hl
    refine ⟨decides_of_eq_ok_iff (Expr.ofText_eq_ok_iff_exists_tree hl) ?_,
      decides_of_eq_ok_iff (Cond.ofText_eq_ok_iff_exists_tree hl) ?_,
      decides_of_eq_ok_iff (Inst.ofText_eq_ok_iff_exists_tree hl) ?_⟩
    · exact fun _ _ => ExprTree.tokens_inj
    · exact fun _ _ => CondTree.tokens_inj
    · exact fun _ _ => InstTree.tokens_inj

/-- A dollar sign without a name is no token. The one derivation of an operator that is applied to
its destination denotes what the reader gives; a comma behind the last argument has none. -/
theorem update_read_as_derived :
    (∃ e, lex "$ += -2".toList = .error e ∧ Inst.ofText "$ += -2" = .error (.lexical e)) ∧
    (∃ tree : InstTree, lex "$0 += -2".toList = .ok tree.tokens ∧
      (∀ other : InstTree, other.tokens = tree.tokens → other = tree) ∧
      Inst.ofText "$0 += -2" = .ok tree.value) ∧
    ∃ ts, lex "f($0,)".toList = .ok ts ∧ (¬ ∃ i, Inst.ofText "f($0,)" = .ok i) ∧
      ¬ ∃ tree : InstTree, tree.tokens = ts := by
  have hdollar : lex "$ += -2".toList = .error .emptyRegister := by decide +kernel
  let tree : InstTree := .update ⟨.reg "0", nofun, nofun⟩ .add (.signed (.neg 2 .dec (by decide)))
  have htree : lex "$0 += -2".toList = .ok tree.tokens := by decide +kernel
  have hcomma : lex "f($0,)".toList =
      .ok [.word "f", lparen, .reg "0", comma, rparen] := by decide +kernel
  have herror : Inst.ofText "f($0,)" =
      .error (.grammar (.expected .expression (some rparen))) := by decide +kernel
  have hnone : ¬ ∃ i, Inst.ofText "f($0,)" = .ok i := by
    rw [herror]
    exact nofun
  obtain ⟨-, -, hdecides⟩ := (readers_decide_grammar "$0 += -2").2 _ htree
  obtain ⟨-, -, hcall⟩ := (readers_decide_grammar "f($0,)").2 _ hcomma
  refine ⟨⟨_, hdollar, ((readers_decide_grammar _).1 _ hdollar).2.2⟩,
    ⟨tree, htree, fun other h => hdecides.unique _ _ h rfl, hdecides.denoted tree rfl⟩,
    _, hcomma, hnone, mt hcall.accepted_iff.2 hnone⟩

end FlowText
