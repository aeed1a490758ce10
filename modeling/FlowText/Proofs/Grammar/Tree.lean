import FlowText.Proofs.Grammar.Inst

/-!
# Derivations

A derivation of the grammar as a tree:

    signed := ['-'] number
    expr   := reg | signed | word | '*' '(' word '*' ')' base
    base   := expr | '(' expr ['+' signed | '-' number] ')'
    cond   := '(' expr cmp expr ')' | '(' cond (logic cond)* ')'
    arg    := expr | cond
    inst   := 'return' | ('goto' | 'call') expr
            | word '(' args ')' | dest '=' word '(' args ')'
            | dest '=' expr [binary expr] | dest binary '=' expr

Each kind of tree has its `tokens` and the value that it stands for. The trees say the same as the
relations: a tree derives its value (`ExprTree.isExpr` and the like), and whatever is derived from
tokens of a text has a tree (`IsExpr.exists_tree` and the like).
-/

namespace FlowText

open Token (lparen rparen comma)

/-! ### Trees -/

/-- A number with an optional minus sign, in the signed 64-bit range. -/
inductive SignedTree where
  | pos (n : Nat) (radix : Radix) (fits : n < 2 ^ 63)
  | neg (n : Nat) (radix : Radix) (fits : n ≤ 2 ^ 63)

/-- The offset of a memory reference, which may be left out. Only behind a plus sign may the number
have a sign of its own. -/
inductive OffsetTree where
  | none
  | plus (n : SignedTree)
  | minus (n : Nat) (radix : Radix) (fits : n ≤ 2 ^ 63)

/-- A derivation of an expression. -/
inductive ExprTree where
  | reg (name : String)
  | signed (n : SignedTree)
  | word (name : String)
  /-- a memory reference whose base stands alone -/
  | direct (ty : String) (base : ExprTree)
  /-- a memory reference whose base stands in parentheses -/
  | grouped (ty : String) (base : ExprTree) (offset : OffsetTree)

/-- A connective, as its sign or as its name. -/
inductive Joint where
  | sign (op : Connective)
  | name (op : Connective)

mutual

/-- A derivation of a condition. -/
inductive CondTree where
  | simple (lhs : ExprTree) (op : Comparison) (rhs : ExprTree)
  | compound (first : CondTree) (more : TailTree)

/-- A derivation of what stands behind the first condition of a compound. -/
inductive TailTree where
  | done
  | join (joint : Joint) (next : CondTree) (more : TailTree)

end

/-- A derivation of an argument. -/
inductive ArgTree where
  | expr (e : ExprTree)
  | cond (c : CondTree)

/-- A derivation of a destination, which is neither of the words for a jump. -/
structure DestTree where
  expr : ExprTree
  ne_goto : expr ≠ .word "goto"
  ne_call : expr ≠ .word "call"

/-- A derivation of an instruction. -/
inductive InstTree where
  | ret
  | goto (target : ExprTree)
  | call (target : ExprTree)
  | apply (name : String) (args : List ArgTree)
  | applyTo (dest : DestTree) (name : String) (args : List ArgTree)
  | assign (dest : DestTree) (source : ExprTree)
  | binary (dest : DestTree) (left : ExprTree) (op : BinOp) (right : ExprTree)
  | update (dest : DestTree) (op : BinOp) (right : ExprTree)

/-! ### Their tokens and values -/

namespace SignedTree

def tokens : SignedTree → List Token
  | pos n radix _ => [.number n radix]
  | neg n radix _ => [.symbol .minus, .number n radix]

def word : SignedTree → Int64
  | pos n _ _ => Int64.ofInt n
  | neg n _ _ => Int64.ofInt (-n)

/-- How the number is written. -/
def radix : SignedTree → Radix
  | pos _ radix _ | neg _ radix _ => radix

end SignedTree

namespace OffsetTree

def tokens : OffsetTree → List Token
  | none => []
  | plus n => .symbol .plus :: n.tokens
  | minus n radix _ => [.symbol .minus, .number n radix]

def word : OffsetTree → Int64
  | none => 0
  | plus n => n.word
  | minus n _ _ => Int64.ofInt (-n)

end OffsetTree

namespace ExprTree

def tokens : ExprTree → List Token
  | reg name => [.reg name]
  | signed n => n.tokens
  | word name => [.word name]
  | direct ty base => typeTokens ty ++ base.tokens
  | grouped ty base offset =>
    typeTokens ty ++ lparen :: (base.tokens ++ (offset.tokens ++ [rparen]))

def value : ExprTree → Expr
  | reg name => .reg name
  | signed n => .value n.word n.radix
  | word name => .addr name
  | direct ty base => .mem ty base.value 0
  | grouped ty base offset => .mem ty base.value offset.word

end ExprTree

namespace Joint

def token : Joint → Token
  | sign op => .symbol op.toSymbol
  | name .and => .word "AND"
  | name .or => .word "OR"

def value : Joint → Connective
  | sign op | name op => op

end Joint

mutual

def CondTree.tokens : CondTree → List Token
  | .simple lhs op rhs =>
    lparen :: (lhs.tokens ++ .symbol op.toSymbol :: (rhs.tokens ++ [rparen]))
  | .compound first more => lparen :: (first.tokens ++ (more.tokens ++ [rparen]))

def TailTree.tokens : TailTree → List Token
  | .done => []
  | .join joint next more => joint.token :: (next.tokens ++ more.tokens)

end

mutual

def CondTree.value : CondTree → Cond
  | .simple lhs op rhs => .simple lhs.value op rhs.value
  | .compound first more => .compound (more.onto (.single first.value))

/-- The chain with the conditions of the tree joined to it, from left to right. -/
def TailTree.onto (chain : Chain) : TailTree → Chain
  | .done => chain
  | .join joint next more => more.onto (.join chain joint.value next.value)

end

namespace ArgTree

def tokens : ArgTree → List Token
  | expr e => e.tokens
  | cond c => c.tokens

def value : ArgTree → Arg
  | expr e => .expr e.value
  | cond c => .cond c.value

/-- The tokens of a list of arguments, with commas between them. -/
def listTokens : List ArgTree → List Token
  | [] => []
  | [a] => a.tokens
  | a :: b :: more => a.tokens ++ comma :: listTokens (b :: more)

end ArgTree

namespace InstTree

def tokens : InstTree → List Token
  | ret => [.word "return"]
  | goto target => .word "goto" :: target.tokens
  | call target => .word "call" :: target.tokens
  | apply name args => .word name :: lparen :: (ArgTree.listTokens args ++ [rparen])
  | applyTo dest name args =>
    dest.expr.tokens ++ .assign :: .word name :: lparen :: (ArgTree.listTokens args ++ [rparen])
  | assign dest source => dest.expr.tokens ++ .assign :: source.tokens
  | binary dest left op right =>
    dest.expr.tokens ++ .assign :: (left.tokens ++ .symbol op.toSymbol :: right.tokens)
  | update dest op right =>
    dest.expr.tokens ++ .symbol op.toSymbol :: .assign :: right.tokens

def value : InstTree → Inst
  | ret => .ret
  | goto target => .goto target.value
  | call target => .call target.value
  | apply name args => .named none name (args.map ArgTree.value)
  | applyTo dest name args => .named (some dest.expr.value) name (args.map ArgTree.value)
  | assign dest source => .assign dest.expr.value source.value
  | binary dest left op right => .binary dest.expr.value op [left.value, right.value]
  | update dest op right => .binary dest.expr.value op [dest.expr.value, right.value]

end InstTree

/-! ### A tree derives its value -/

/-- **A tree derives its value.** A number. -/
theorem SignedTree.isSigned (n : SignedTree) : IsSigned n.tokens n.word n.radix := by
  cases n with
  | pos n radix fits => exact .pos (Int64.toInt_ofInt_of_le (by omega) (by omega))
  | neg n radix fits => exact .neg (Int64.toInt_ofInt_of_le (by omega) (by omega))

/-- An offset. -/
theorem OffsetTree.isOffset (o : OffsetTree) : IsOffset o.tokens o.word := by
  cases o with
  | none => exact .none
  | plus n => exact .plus n.isSigned
  | minus n radix fits => exact .minus (Int64.toInt_ofInt_of_le (by omega) (by omega))

/-- An expression. -/
theorem ExprTree.isExpr (e : ExprTree) : IsExpr e.tokens e.value := by
  induction e with
  | reg name => exact .reg
  | signed n => exact .value n.isSigned
  | word name => exact .addr
  | direct ty base ih => exact .direct ih
  | grouped ty base offset ih => exact .offset ih offset.isOffset

/-- A comparison is found by its sign. -/
theorem Comparison.ofSymbol_toSymbol (op : Comparison) :
    ofSymbol op.toSymbol.text = .ok op := by
  rw [text_toSymbol, ofSymbol_symbol]

/-- A binary operator is found by its sign. -/
theorem BinOp.ofSymbol?_toSymbol (op : BinOp) : ofSymbol? op.toSymbol.text = some op := by
  rw [text_toSymbol, ofSymbol?_symbol]

/-- What the token of a connective says is the connective. -/
theorem Joint.exists_word (j : Joint) :
    ∃ word, connectiveWord? j.token = some word ∧ Connective.ofWord word = .ok j.value := by
  cases j with
  | sign op => exact ⟨_, rfl, by rw [Connective.text_toSymbol]; exact op.ofWord_symbol⟩
  | name op => cases op <;> exact ⟨_, rfl, rfl⟩

mutual

/-- A condition, by recursion over what stands in it. -/
theorem CondTree.isCond (c : CondTree) : IsCond c.tokens c.value := by
  match c with
  | .simple lhs op rhs => exact .simple lhs.isExpr op.ofSymbol_toSymbol rhs.isExpr
  | .compound first more =>
    rw [CondTree.tokens, ← List.append_assoc]
    exact .compound (more.isChain (.single first.isCond))

/-- The tokens of the tree go on with the text of a chain. -/
theorem TailTree.isChain (more : TailTree) {ts : List Token} {chain : Chain}
    (h : IsChain ts chain) : IsChain (ts ++ more.tokens) (more.onto chain) := by
  match more with
  | .done =>
    rw [TailTree.tokens, List.append_nil]
    exact h
  | .join joint next more =>
    obtain ⟨word, hw, hl⟩ := joint.exists_word
    have hjoin := more.isChain (.join h hw hl next.isCond)
    rw [List.append_assoc] at hjoin
    exact hjoin

end

/-- An argument. -/
theorem ArgTree.isArg (a : ArgTree) : IsArg a.tokens a.value := by
  cases a with
  | expr e => exact .expr e.isExpr
  | cond c => exact .cond c.isCond

/-- Arguments with commas between them. -/
theorem ArgTree.isArgs (a : ArgTree) (more : List ArgTree) :
    IsArgs (listTokens (a :: more)) ((a :: more).map value) := by
  induction more generalizing a with
  | nil => exact .one a.isArg
  | cons b more ih => exact .more a.isArg (ih b)

/-- Arguments up to the closing parenthesis. -/
theorem ArgTree.isArgList (args : List ArgTree) :
    IsArgList (listTokens args) (args.map value) := by
  cases args with
  | nil => exact .none
  | cons a more => exact .some (a.isArgs more)

/-- Only the word itself stands for a symbolic address. -/
theorem ExprTree.value_eq_addr_iff {e : ExprTree} {name : String} :
    e.value = .addr name ↔ e = .word name := by
  cases e <;> simp [value]

/-- A destination. -/
theorem DestTree.isDest (d : DestTree) : IsDest d.expr.tokens d.expr.value where
  expr := d.expr.isExpr
  ne_goto := mt ExprTree.value_eq_addr_iff.1 d.ne_goto
  ne_call := mt ExprTree.value_eq_addr_iff.1 d.ne_call

/-- An instruction. -/
theorem InstTree.isInst (i : InstTree) : IsInst i.tokens i.value := by
  cases i with
  | ret => exact .ret
  | goto target => exact .goto target.isExpr
  | call target => exact .call target.isExpr
  | apply name args => exact .apply (ArgTree.isArgList args)
  | applyTo dest name args => exact .applyTo dest.isDest (ArgTree.isArgList args)
  | assign dest source => exact .assign dest.isDest source.isExpr
  | binary dest left op right =>
    exact .binary dest.isDest left.isExpr op.ofSymbol?_toSymbol right.isExpr
  | update dest op right => exact .update dest.isDest op.ofSymbol?_toSymbol right.isExpr

/-! ### What is derived has a tree -/

theorem ofInt_of_toInt {w : Int64} {z : Int} (h : w.toInt = z) : Int64.ofInt z = w := by
  rw [← h, Int64.ofInt_toInt]

/-- **What is derived has a tree.** A number. -/
theorem IsSigned.exists_tree {ts : List Token} {w : Int64} {r : Radix} (h : IsSigned ts w r) :
    ∃ n : SignedTree, n.tokens = ts ∧ n.word = w ∧ n.radix = r := by
  cases h with
  | @pos n r w h =>
    have := w.toInt_lt
    exact ⟨.pos n r (by omega), rfl, ofInt_of_toInt h, rfl⟩
  | @neg n r w h =>
    have := w.le_toInt
    exact ⟨.neg n r (by omega), rfl, ofInt_of_toInt h, rfl⟩

/-- An offset. -/
theorem IsOffset.exists_tree {ts : List Token} {w : Int64} (h : IsOffset ts w) :
    ∃ o : OffsetTree, o.tokens = ts ∧ o.word = w := by
  cases h with
  | none => exact ⟨.none, rfl, rfl⟩
  | plus h =>
    obtain ⟨n, rfl, rfl, -⟩ := h.exists_tree
    exact ⟨.plus n, rfl, rfl⟩
  | @minus n r w h =>
    have := w.le_toInt
    exact ⟨.minus n r (by omega), rfl, ofInt_of_toInt h⟩

/-- An expression. -/
theorem IsExpr.exists_tree {ts : List Token} {e : Expr} (h : IsExpr ts e) :
    ∃ t : ExprTree, t.tokens = ts ∧ t.value = e := by
  induction h with
  | @reg name => exact ⟨.reg name, rfl, rfl⟩
  | value h =>
    obtain ⟨n, rfl, rfl, rfl⟩ := h.exists_tree
    exact ⟨.signed n, rfl, rfl⟩
  | @addr name => exact ⟨.word name, rfl, rfl⟩
  | @direct ty ts base h ih =>
    obtain ⟨t, rfl, rfl⟩ := ih
    exact ⟨.direct ty t, rfl, rfl⟩
  | @offset ty ts os base w h ho ih =>
    obtain ⟨t, rfl, rfl⟩ := ih
    obtain ⟨o, rfl, rfl⟩ := ho.exists_tree
    exact ⟨.grouped ty t o, rfl, rfl⟩

/-- A comparison has one sign. -/
theorem Comparison.eq_toSymbol {s : Symbol} {op : Comparison}
    (h : ofSymbol s.text = .ok op) : s = op.toSymbol := by
  cases s <;> cases op <;> first | rfl | cases h

/-- A binary operator has one sign. -/
theorem BinOp.eq_toSymbol {s : Symbol} {op : BinOp} (h : ofSymbol? s.text = some op) :
    s = op.toSymbol := by
  cases s <;> cases op <;> first | rfl | cases h

/-- The signs of the connectives are no words, so a word is the name of one. -/
theorem exists_joint {t : Token} {word : String} {l : Connective} (hp : t.Proper)
    (hw : connectiveWord? t = some word) (hl : Connective.ofWord word = .ok l) :
    ∃ j : Joint, j.token = t ∧ j.value = l := by
  cases t with
  | symbol s =>
    obtain rfl := Option.some.inj hw
    cases s <;> cases hl <;> exact ⟨.sign _, rfl, rfl⟩
  | word name =>
    obtain rfl := Option.some.inj hw
    unfold Connective.ofWord at hl
    split at hl <;> cases hl
    · exact absurd hp (show ¬ IsWord "&&" by decide)
    · exact ⟨.name .and, rfl, rfl⟩
    · exact absurd hp (show ¬ IsWord "||" by decide)
    · exact ⟨.name .or, rfl, rfl⟩
  | _ => cases hw

/-- One more condition at the end. -/
def TailTree.concat (joint : Joint) (c : CondTree) : TailTree → TailTree
  | .done => .join joint c .done
  | .join j next more => .join j next (more.concat joint c)

/-- A condition that is added to a tail adds its tokens at the end. -/
theorem TailTree.tokens_concat (joint : Joint) (c : CondTree) (more : TailTree) :
    (more.concat joint c).tokens = more.tokens ++ joint.token :: c.tokens := by
  match more with
  | .done => simp [concat, tokens]
  | .join j next more => simp [concat, tokens, more.tokens_concat joint c]

/-- It is the last one of the chain, too. -/
theorem TailTree.onto_concat (joint : Joint) (c : CondTree) (more : TailTree) (chain : Chain) :
    (more.concat joint c).onto chain = .join (more.onto chain) joint.value c.value := by
  match more with
  | .done => rfl
  | .join j next more => exact more.onto_concat joint c _

mutual

/-- A condition. The chain is derived from its end, and its tree from the front. -/
theorem IsCond.exists_tree {ts : List Token} {c : Cond} (h : IsCond ts c)
    (hp : ∀ t ∈ ts, t.Proper) : ∃ t : CondTree, t.tokens = ts ∧ t.value = c := by
  match h with
  | .simple hl ho hr =>
    obtain ⟨l, rfl, rfl⟩ := hl.exists_tree
    obtain ⟨r, rfl, rfl⟩ := hr.exists_tree
    obtain rfl := Comparison.eq_toSymbol ho
    exact ⟨.simple l _ r, rfl, rfl⟩
  | .compound h =>
    obtain ⟨first, more, rfl, rfl⟩ := h.exists_tree fun t ht => hp t (by simp [ht])
    exact ⟨.compound first more, by simp [CondTree.tokens], rfl⟩

/-- A chain grows at its end, and so does the tree behind its first condition. -/
theorem IsChain.exists_tree {ts : List Token} {chain : Chain} (h : IsChain ts chain)
    (hp : ∀ t ∈ ts, t.Proper) :
    ∃ (first : CondTree) (more : TailTree), first.tokens ++ more.tokens = ts ∧
      more.onto (.single first.value) = chain := by
  match h with
  | .single h =>
    obtain ⟨t, rfl, rfl⟩ := h.exists_tree hp
    exact ⟨t, .done, by simp [TailTree.tokens], rfl⟩
  | .join h hw hl hc =>
    obtain ⟨joint, rfl, rfl⟩ := exists_joint (hp _ (by simp)) hw hl
    obtain ⟨first, more, rfl, rfl⟩ := h.exists_tree fun t ht => hp t (by simp [ht])
    obtain ⟨next, rfl, rfl⟩ := hc.exists_tree fun t ht => hp t (by simp [ht])
    refine ⟨first, more.concat joint next, ?_, more.onto_concat joint next _⟩
    rw [more.tokens_concat, List.append_assoc]

end

/-- An argument. -/
theorem IsArg.exists_tree {ts : List Token} {a : Arg} (h : IsArg ts a)
    (hp : ∀ t ∈ ts, t.Proper) : ∃ t : ArgTree, t.tokens = ts ∧ t.value = a := by
  cases h with
  | expr h =>
    obtain ⟨t, rfl, rfl⟩ := h.exists_tree
    exact ⟨.expr t, rfl, rfl⟩
  | cond h =>
    obtain ⟨t, rfl, rfl⟩ := h.exists_tree hp
    exact ⟨.cond t, rfl, rfl⟩

/-- Arguments with commas between them. -/
theorem IsArgs.exists_trees {ts : List Token} {args : List Arg} (h : IsArgs ts args)
    (hp : ∀ t ∈ ts, t.Proper) :
    ∃ (t : ArgTree) (more : List ArgTree), ArgTree.listTokens (t :: more) = ts ∧
      (t :: more).map ArgTree.value = args := by
  induction h with
  | one h =>
    obtain ⟨t, rfl, rfl⟩ := h.exists_tree hp
    exact ⟨t, [], rfl, rfl⟩
  | more h hs ih =>
    obtain ⟨t, rfl, rfl⟩ := h.exists_tree fun t ht => hp t (by simp [ht])
    obtain ⟨u, more, rfl, rfl⟩ := ih fun t ht => hp t (by simp [ht])
    exact ⟨t, u :: more, rfl, rfl⟩

/-- Arguments up to the closing parenthesis. -/
theorem IsArgList.exists_trees {ts : List Token} {args : List Arg} (h : IsArgList ts args)
    (hp : ∀ t ∈ ts, t.Proper) :
    ∃ trees, ArgTree.listTokens trees = ts ∧ trees.map ArgTree.value = args := by
  cases h with
  | none => exact ⟨[], rfl, rfl⟩
  | some h =>
    obtain ⟨t, more, hts, hargs⟩ := h.exists_trees hp
    exact ⟨t :: more, hts, hargs⟩

/-- A destination. -/
theorem IsDest.exists_tree {ts : List Token} {d : Expr} (h : IsDest ts d) :
    ∃ t : DestTree, t.expr.tokens = ts ∧ t.expr.value = d := by
  obtain ⟨e, he, hd⟩ := h.expr.exists_tree
  refine ⟨⟨e, ?_, ?_⟩, he, hd⟩
  · rintro rfl
    exact h.ne_goto hd.symm
  · rintro rfl
    exact h.ne_call hd.symm

/-- An instruction. -/
theorem IsInst.exists_tree {ts : List Token} {i : Inst} (h : IsInst ts i)
    (hp : ∀ t ∈ ts, t.Proper) : ∃ t : InstTree, t.tokens = ts ∧ t.value = i := by
  cases h with
  | ret => exact ⟨.ret, rfl, rfl⟩
  | goto h =>
    obtain ⟨t, rfl, rfl⟩ := h.exists_tree
    exact ⟨.goto t, rfl, rfl⟩
  | call h =>
    obtain ⟨t, rfl, rfl⟩ := h.exists_tree
    exact ⟨.call t, rfl, rfl⟩
  | @apply name ts args h =>
    obtain ⟨trees, rfl, rfl⟩ := h.exists_trees fun t ht => hp t (by simp [ht])
    exact ⟨.apply name trees, rfl, rfl⟩
  | @applyTo ds ts d name args hd h =>
    obtain ⟨dest, rfl, rfl⟩ := hd.exists_tree
    obtain ⟨trees, rfl, rfl⟩ := h.exists_trees fun t ht => hp t (by simp [ht])
    exact ⟨.applyTo dest name trees, rfl, rfl⟩
  | assign hd h =>
    obtain ⟨dest, rfl, rfl⟩ := hd.exists_tree
    obtain ⟨t, rfl, rfl⟩ := h.exists_tree
    exact ⟨.assign dest t, rfl, rfl⟩
  | binary hd hl ho hr =>
    obtain ⟨dest, rfl, rfl⟩ := hd.exists_tree
    obtain ⟨l, rfl, rfl⟩ := hl.exists_tree
    obtain ⟨r, rfl, rfl⟩ := hr.exists_tree
    obtain rfl := BinOp.eq_toSymbol ho
    exact ⟨.binary dest l _ r, rfl, rfl⟩
  | update hd ho hr =>
    obtain ⟨dest, rfl, rfl⟩ := hd.exists_tree
    obtain ⟨r, rfl, rfl⟩ := hr.exists_tree
    obtain rfl := BinOp.eq_toSymbol ho
    exact ⟨.update dest _ r, rfl, rfl⟩

end FlowText
