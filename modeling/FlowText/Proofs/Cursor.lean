import FlowText.Inst.Read
import FlowText.Proofs.Routine

/-!
# Readers with a cursor

The readers of the instruction text as routines that go through a list of tokens with a cursor. The
tokens stay, and the cursor is moved by hand: nothing but the tests of a reader keeps it in the
list, and nothing but the tokens that were passed keeps a reader from calling itself at the same
place. A loop is a routine that calls itself for its next turn.

* `Cursor.program` — the routines, which call each other as a `Cursor.Call`.
* `Cursor.keeps_forward` — every reader moves its cursor on within the list, and its calls start
  further on or are of a lower rank.
-/

namespace FlowText

namespace Cursor

open Token (lparen rparen comma)

/-- The readers that call others. -/
inductive Reader where
  /-- an expression -/
  | expr
  /-- what stands behind the first star of a memory reference -/
  | mem
  /-- a condition -/
  | cond
  /-- one turn of the loop over the conditions of a compound, which starts at a connective or at the
  end -/
  | joins
  /-- the arguments of a call, from the opening parenthesis on -/
  | call
  /-- one turn of the loop over arguments, which starts at an argument -/
  | args
  /-- the right-hand side of an assignment -/
  | source
  /-- an instruction -/
  | inst
  deriving DecidableEq, Repr

/-- What a reader is given besides the cursor: a loop what was read so far, and the right-hand side
of an assignment its destination. -/
abbrev Reader.Input : Reader → Type
  | joins => Chain
  | args => List Arg
  | source => Expr
  | _ => Unit

/-- What a reader gives back besides the cursor. -/
abbrev Reader.Output : Reader → Type
  | expr | mem => Expr
  | cond => Cond
  | joins => Chain
  | call | args => List Arg
  | source | inst => Inst

/-- **Call.** A reader, what it is given, and where its cursor stands. -/
structure Call where
  reader : Reader
  input : reader.Input
  pos : Nat

/-- What a call gives back: what was read, and where the cursor stands then. -/
abbrev Call.Result (c : Call) : Type := c.reader.Output × Nat

/-- A routine of the readers. Most of them give back where the cursor stands then. -/
abbrev Read (α : Type) : Type := Routine Call.Result GrammarError α

/-- Calls a reader. -/
def ask (r : Reader) (input : r.Input) (p : Nat) : Read (r.Output × Nat) :=
  .call ⟨r, input, p⟩ fun a => pure a

section Readers

variable (ts : List Token)

/-- Reports what is needed next, and the token that stands there instead. -/
def missing {α : Type} (what : Expectation) (p : Nat) : Read α :=
  .done (.error (.expected what ts[p]?))

/-- Passes a token. -/
def tokenAt (t : Token) (what : Expectation) (p : Nat) : Read (Unit × Nat) :=
  if ts[p]? = some t then pure ((), p + 1) else missing ts what p

/-- The tokens are used up. -/
def endAt (p : Nat) : Read (Unit × Nat) :=
  if p = ts.length then pure ((), p) else missing ts .endOfInput p

/-- Passes a token with what it was looked up as. -/
def passing {α : Type} (p : Nat) (r : Except GrammarError α) : Read (α × Nat) :=
  .done (r.map (·, p + 1))

/-- The word of a number, with its radix. -/
def inRangeAt (z : Int) (radix : Radix) (p : Nat) : Read ((Int64 × Radix) × Nat) :=
  match word? z with
  | some w => pure ((w, radix), p)
  | none => .done (.error .outOfRange)

/-- Reads a number with an optional minus sign. -/
def signedAt (what : Expectation) (p : Nat) : Read ((Int64 × Radix) × Nat) :=
  match ts[p]?, ts[p + 1]? with
  | some (.symbol .minus), some (.number n radix) => inRangeAt (-n) radix (p + 2)
  | some (.number n radix), _ => inRangeAt n radix (p + 1)
  | _, _ => missing ts what p

/-- Reads an optional offset. -/
def offsetAt (p : Nat) : Read (Int64 × Nat) :=
  match ts[p]? with
  | some (.symbol .plus) => do
    let ((w, _), q) ← signedAt ts .offset (p + 1)
    return (w, q)
  | some (.symbol .minus) => do
    let ((w, _), q) ← signedAt ts .offset p
    return (w, q)
  | _ => pure (0, p)

/-- Reads the name of a memory type. -/
def typeAt (p : Nat) : Read (String × Nat) :=
  match ts[p]? with
  | some (.word ty) => pure (ty, p + 1)
  | _ => missing ts .typeName p

def exprAt (p : Nat) : Read (Expr × Nat) :=
  match ts[p]? with
  | some (.reg name) => pure (.reg name, p + 1)
  | some (.word name) => pure (.addr name, p + 1)
  | some (.number _ _) | some (.symbol .minus) => do
    let ((w, radix), q) ← signedAt ts .expression p
    return (.value w radix, q)
  | some (.symbol .star) => ask .mem () (p + 1)
  | _ => missing ts .expression p

def memAt (p : Nat) : Read (Expr × Nat) := do
  let (_, p) ← tokenAt ts lparen .typeOpen p
  let (ty, p) ← typeAt ts p
  let (_, p) ← tokenAt ts (.symbol .star) .typeStar p
  let (_, p) ← tokenAt ts rparen .typeClose p
  if ts[p]? = some lparen then do
    let (base, p) ← ask .expr () (p + 1)
    let (offset, p) ← offsetAt ts p
    let (_, p) ← tokenAt ts rparen .baseClose p
    return (.mem ty base offset, p)
  else do
    let (base, p) ← ask .expr () p
    return (.mem ty base 0, p)

/-- Reads a comparison symbol. -/
def comparisonAt (p : Nat) : Read (Comparison × Nat) :=
  match ts[p]? with
  | some (.symbol s) => passing p ((Comparison.ofSymbol s.text).mapError .vocabulary)
  | _ => missing ts .comparison p

/-- Reads a connective, be it a symbol or a word. -/
def connectiveAt (p : Nat) : Read (Connective × Nat) :=
  match ts[p]?.bind connectiveWord? with
  | some word => passing p ((Connective.ofWord word).mapError .vocabulary)
  | none => missing ts .connective p

def condAt (p : Nat) : Read (Cond × Nat) := do
  let (_, p) ← tokenAt ts lparen .condOpen p
  if ts[p]? = some lparen then do
    let (first, p) ← ask .cond () p
    let (chain, p) ← ask .joins (.single first) p
    return (.compound chain, p)
  else do
    let (lhs, p) ← ask .expr () p
    let (op, p) ← comparisonAt ts p
    let (rhs, p) ← ask .expr () p
    let (_, p) ← tokenAt ts rparen .condClose p
    return (.simple lhs op rhs, p)

/-- The loop goes on up to a closing parenthesis. It does not ask whether there are tokens left. -/
def joinsAt (chain : Chain) (p : Nat) : Read (Chain × Nat) :=
  if ts[p]? = some rparen then pure (chain, p + 1)
  else do
    let (op, p) ← connectiveAt ts p
    let (next, p) ← ask .cond () p
    ask .joins (.join chain op next) p

def callAt (p : Nat) : Read (List Arg × Nat) := do
  let (_, p) ← tokenAt ts lparen .argsOpen p
  if ts[p]? = some rparen then return ([], p + 1)
  ask .args [] p

/-- Reads an argument. An opening parenthesis starts a condition. -/
def argAt (p : Nat) : Read (Arg × Nat) :=
  if ts[p]? = some lparen then do
    let (c, p) ← ask .cond () p
    return (.cond c, p)
  else do
    let (e, p) ← ask .expr () p
    return (.expr e, p)

def argsAt (before : List Arg) (p : Nat) : Read (List Arg × Nat) := do
  let (a, p) ← argAt ts p
  match ts[p]? with
  | some .comma => ask .args (before ++ [a]) (p + 1)
  | some .rparen => return (before ++ [a], p + 1)
  | _ => missing ts .argsNext p

/-- Reads what stands behind the first operand on the right-hand side of an assignment. -/
def sourceBehindAt (dest left : Expr) (p : Nat) : Read (Inst × Nat) :=
  match ts[p]? with
  | none => pure (.assign dest left, p)
  | some (.symbol s) => do
    let (op, p) ← passing p (binaryOp s)
    let (right, p) ← ask .expr () p
    return (.binary dest op [left, right], p)
  | some _ => missing ts .operatorOrEnd p

def sourceAt (dest : Expr) (p : Nat) : Read (Inst × Nat) :=
  match ts[p]?, ts[p + 1]? with
  | some (.word name), some .lparen => do
    let (args, p) ← ask .call () (p + 1)
    return (.named (some dest) name args, p)
  | _, _ => do
    let (left, p) ← ask .expr () p
    sourceBehindAt ts dest left p

/-- Reads what stands behind the destination of an instruction. -/
def instBehindAt (dest : Expr) (p : Nat) : Read (Inst × Nat) :=
  match ts[p]? with
  | some .assign => ask .source dest (p + 1)
  | some (.symbol s) => do
    let (op, p) ← passing p (binaryOp s)
    let (_, p) ← tokenAt ts .assign .updateAssign p
    let (right, p) ← ask .expr () p
    return (.binary dest op [dest, right], p)
  | _ => missing ts .assign p

/-- Reads an instruction that starts with its destination. -/
def assignedAt (p : Nat) : Read (Inst × Nat) := do
  let (dest, p) ← ask .expr () p
  let (i, p) ← instBehindAt ts dest p
  let (_, p) ← endAt ts p
  return (i, p)

/-- Reads the target of a jump or a call, which ends the text. -/
def targetAt (inst : Expr → Inst) (p : Nat) : Read (Inst × Nat) := do
  let (target, p) ← ask .expr () p
  let (_, p) ← endAt ts p
  return (inst target, p)

/-- Reads an instruction that starts with a word. The word `return` has to be the only token there
is. -/
def wordAt (word : String) (p : Nat) : Read (Inst × Nat) :=
  if word = "return" ∧ ts.length = 1 then pure (.ret, p + 1)
  else if ts[p + 1]? = some lparen then do
    let (args, p) ← ask .call () (p + 1)
    let (_, p) ← endAt ts p
    return (.named none word args, p)
  else if word = "goto" then targetAt ts .goto (p + 1)
  else if word = "call" then targetAt ts .call (p + 1)
  else assignedAt ts p

def instAt (p : Nat) : Read (Inst × Nat) :=
  match ts[p]? with
  | some (.word word) => wordAt ts word p
  | _ => assignedAt ts p

/-- **Readers.** The routine of each reader. -/
def program : Program Call.Result GrammarError
  | ⟨.expr, _, p⟩ => exprAt ts p
  | ⟨.mem, _, p⟩ => memAt ts p
  | ⟨.cond, _, p⟩ => condAt ts p
  | ⟨.joins, chain, p⟩ => joinsAt ts chain p
  | ⟨.call, _, p⟩ => callAt ts p
  | ⟨.args, before, p⟩ => argsAt ts before p
  | ⟨.source, dest, p⟩ => sourceAt ts dest p
  | ⟨.inst, _, p⟩ => instAt ts p

end Readers

/-! ### Forward -/

variable {α β : Type}

/-- The cursor ends up in the list, at `lo` or further on. -/
def Lands (ts : List Token) (lo : Nat) (r : Except GrammarError (α × Nat)) : Prop :=
  ∀ a q, r = .ok (a, q) → lo ≤ q ∧ q ≤ ts.length

/-- The readers that may call another one before they have moved their cursor have the higher
rank. -/
def Reader.rank : Reader → Nat
  | args | source | inst => 1
  | _ => 0

/-- **Below.** A call that starts further on, or at the same place with a reader of a lower rank. -/
def Call.Below (c' c : Call) : Prop :=
  c.pos < c'.pos ∨ c.pos = c'.pos ∧ c'.reader.rank < c.reader.rank

/-- Calls below a lower call are lower still. -/
theorem Call.below_trans (a b c : Call) (hab : a.Below b) (hbc : b.Below c) : a.Below c := by
  unfold Call.Below at *
  omega

/-- A call that starts further on is lower, whatever it calls. -/
theorem below_of_lt {r r' : Reader} {i : r.Input} {i' : r'.Input} {p q : Nat} (h : p < q) :
    Call.Below ⟨r', i', q⟩ ⟨r, i, p⟩ := .inl h

/-- At the same place, a call of a lower rank is lower. -/
theorem below_of_rank {r r' : Reader} {i : r.Input} {i' : r'.Input} {p : Nat}
    (h : r'.rank < r.rank) : Call.Below ⟨r', i', p⟩ ⟨r, i, p⟩ := .inr ⟨rfl, h⟩

/-- **Forward.** What a reader that was called as `c` does in the end or in between: its calls start
in the list and below `c`, and the cursor ends up at `lo` or further on, if every call moves its
cursor on within the list. -/
def Forward (ts : List Token) (c : Call) (lo : Nat) (x : Read (α × Nat)) : Prop :=
  x.Meets (fun c' => c'.pos ≤ ts.length ∧ c'.Below c)
    (fun c' => Lands ts (c'.pos + 1)) (Lands ts lo)

variable {ts : List Token} {c : Call} {lo lo' p q : Nat}

theorem lt_of_getElem?_eq_some {t : Token} (h : ts[p]? = some t) : p < ts.length :=
  (List.getElem?_eq_some_iff.1 h).1

namespace Forward

/-- A reader may give back any place in the list from where it has to be. -/
theorem ok {a : α} (hlo : lo ≤ q) (hq : q ≤ ts.length) :
    Forward ts c lo (pure (a, q) : Read (α × Nat)) := by
  intro a' q' h
  cases h
  exact ⟨hlo, hq⟩

/-- A reader that gives up moves nowhere. -/
theorem error {e : GrammarError} : Forward ts c lo (.done (.error e) : Read (α × Nat)) := nofun

/-- What comes next starts where the reader before it stopped. -/
theorem bind {x : Read (α × Nat)} {f : α × Nat → Read (β × Nat)} (hx : Forward ts c lo x)
    (hf : ∀ a q, lo ≤ q → q ≤ ts.length → Forward ts c lo' (f (a, q))) :
    Forward ts c lo' (x >>= f) := by
  refine Routine.Meets.bind hx (fun e _ => nofun) fun (a, q) h => ?_
  obtain ⟨hlo, hq⟩ := h a q rfl
  exact hf a q hlo hq

/-- A lower call is made, and its answer is further on by the induction over the calls. -/
theorem ask {r : Reader} {i : r.Input} (hp : p ≤ ts.length) (hb : Call.Below ⟨r, i, p⟩ c)
    (hlo : lo ≤ p + 1) : Forward ts c lo (ask r i p) := by
  refine ⟨⟨hp, hb⟩, fun e _ => nofun, fun (a, q) h => ?_⟩
  obtain ⟨hq, hlen⟩ := h a q rfl
  exact ok (Nat.le_trans hlo hq) hlen

/-- A token that is there is passed. -/
theorem tokenAt {t : Token} {what : Expectation} : Forward ts c (p + 1) (tokenAt ts t what p) := by
  unfold Cursor.tokenAt
  split
  · next h => exact ok (Nat.le_refl _) (lt_of_getElem?_eq_some h)
  · exact error

/-- At the end the cursor stays. -/
theorem endAt : Forward ts c p (endAt ts p) := by
  unfold Cursor.endAt
  split
  · next h => exact ok (Nat.le_refl _) (Nat.le_of_eq h)
  · exact error

/-- The cursor goes past the token that was looked at. -/
theorem passing {r : Except GrammarError α} (hp : p < ts.length) :
    Forward ts c (p + 1) (passing p r) := by
  cases r with
  | error e => exact error
  | ok a => exact ok (Nat.le_refl _) hp

/-- The check of a range moves nothing. -/
theorem inRangeAt {z : Int} {radix : Radix} (hlo : lo ≤ p) (hp : p ≤ ts.length) :
    Forward ts c lo (inRangeAt z radix p) := by
  unfold Cursor.inRangeAt
  split
  · exact ok hlo hp
  · exact error

/-- At least the digits are passed. -/
theorem signedAt {what : Expectation} : Forward ts c (p + 1) (signedAt ts what p) := by
  unfold Cursor.signedAt
  split
  · next h => exact inRangeAt (by omega) (lt_of_getElem?_eq_some h)
  · next h => exact inRangeAt (Nat.le_refl _) (lt_of_getElem?_eq_some h)
  · exact error

/-- An offset may be left out, and then nothing is passed. -/
theorem offsetAt (hp : p ≤ ts.length) : Forward ts c p (offsetAt ts p) := by
  unfold Cursor.offsetAt
  split
  · exact signedAt.bind fun _ q hq hlen => ok (by omega) hlen
  · exact signedAt.bind fun _ q hq hlen => ok (by omega) hlen
  · exact ok (Nat.le_refl _) hp

/-- A type is one token. -/
theorem typeAt : Forward ts c (p + 1) (typeAt ts p) := by
  unfold Cursor.typeAt
  split
  · next h => exact ok (Nat.le_refl _) (lt_of_getElem?_eq_some h)
  · exact error

/-- A comparison is one token. -/
theorem comparisonAt : Forward ts c (p + 1) (comparisonAt ts p) := by
  unfold Cursor.comparisonAt
  split
  · next h => exact passing (lt_of_getElem?_eq_some h)
  · exact error

/-- A connective is one token. -/
theorem connectiveAt : Forward ts c (p + 1) (connectiveAt ts p) := by
  unfold Cursor.connectiveAt
  split
  · next h =>
    obtain ⟨t, ht, -⟩ := Option.bind_eq_some_iff.1 h
    exact passing (lt_of_getElem?_eq_some ht)
  · exact error

end Forward

/-- **An expression.** It calls the reader of memory references behind its first star only. -/
theorem forward_exprAt : Forward ts ⟨.expr, (), p⟩ (p + 1) (exprAt ts p) := by
  unfold exprAt
  split
  · next h => exact .ok (Nat.le_refl _) (lt_of_getElem?_eq_some h)
  · next h => exact .ok (Nat.le_refl _) (lt_of_getElem?_eq_some h)
  · exact Forward.signedAt.bind fun _ q hq hlen => .ok hq hlen
  · exact Forward.signedAt.bind fun _ q hq hlen => .ok hq hlen
  · next h => exact .ask (lt_of_getElem?_eq_some h) (below_of_lt (by omega)) (by omega)
  · exact .error

/-- **A memory reference.** Its base starts behind its type. -/
theorem forward_memAt : Forward ts ⟨.mem, (), p⟩ (p + 1) (memAt ts p) := by
  refine Forward.tokenAt.bind fun _ p₁ h₁ _ => ?_
  refine Forward.typeAt.bind fun ty p₂ h₂ _ => ?_
  refine Forward.tokenAt.bind fun _ p₃ h₃ _ => ?_
  refine Forward.tokenAt.bind fun _ p₄ h₄ hlen₄ => ?_
  dsimp only
  split
  · next h =>
    have hlt := lt_of_getElem?_eq_some h
    refine (Forward.ask hlt (below_of_lt (by omega)) (Nat.le_refl _)).bind
      fun base p₅ h₅ hlen₅ => ?_
    refine (Forward.offsetAt hlen₅).bind fun offset p₆ h₆ _ => ?_
    exact Forward.tokenAt.bind fun _ p₇ h₇ hlen₇ => .ok (by omega) hlen₇
  · refine (Forward.ask hlen₄ (below_of_lt (by omega)) (Nat.le_refl _)).bind
      fun base p₅ h₅ hlen₅ => ?_
    exact .ok (by omega) hlen₅

/-- **A condition.** All that it calls starts behind its parenthesis. -/
theorem forward_condAt : Forward ts ⟨.cond, (), p⟩ (p + 1) (condAt ts p) := by
  refine Forward.tokenAt.bind fun _ p₁ h₁ hlen₁ => ?_
  dsimp only
  split
  · refine (Forward.ask hlen₁ (below_of_lt h₁) (Nat.le_refl _)).bind fun first p₂ h₂ hlen₂ => ?_
    refine (Forward.ask hlen₂ (below_of_lt (by omega)) (Nat.le_refl _)).bind
      fun chain p₃ h₃ hlen₃ => ?_
    exact .ok (by omega) hlen₃
  · refine (Forward.ask hlen₁ (below_of_lt h₁) (Nat.le_refl _)).bind fun lhs p₂ h₂ _ => ?_
    refine Forward.comparisonAt.bind fun op p₃ h₃ hlen₃ => ?_
    refine (Forward.ask hlen₃ (below_of_lt (by omega)) (Nat.le_refl _)).bind fun rhs p₄ h₄ _ => ?_
    exact Forward.tokenAt.bind fun _ p₅ h₅ hlen₅ => .ok (by omega) hlen₅

/-- What is no closing parenthesis has to be a connective, so the loop stops at the end of the
tokens. -/
theorem forward_joinsAt {chain : Chain} :
    Forward ts ⟨.joins, chain, p⟩ (p + 1) (joinsAt ts chain p) := by
  unfold joinsAt
  split
  · next h => exact .ok (Nat.le_refl _) (lt_of_getElem?_eq_some h)
  · refine Forward.connectiveAt.bind fun op p₁ h₁ hlen₁ => ?_
    refine (Forward.ask hlen₁ (below_of_lt h₁) (Nat.le_refl _)).bind fun next p₂ h₂ hlen₂ => ?_
    exact .ask hlen₂ (below_of_lt (by omega)) (by omega)

/-- **A call.** Its arguments start behind its parenthesis. -/
theorem forward_callAt : Forward ts ⟨.call, (), p⟩ (p + 1) (callAt ts p) := by
  refine Forward.tokenAt.bind fun _ p₁ h₁ hlen₁ => ?_
  dsimp only
  split
  · next h => exact .ok (by omega) (lt_of_getElem?_eq_some h)
  · exact .ask hlen₁ (below_of_lt h₁) (by omega)

/-- **An argument.** It is read by a lower reader, which starts at the same place. -/
theorem forward_argAt {before : List Arg} (hp : p ≤ ts.length) :
    Forward ts ⟨.args, before, p⟩ (p + 1) (argAt ts p) := by
  unfold argAt
  split
  · exact (Forward.ask hp (below_of_rank (by decide)) (Nat.le_refl _)).bind
      fun c q hq hlen => .ok hq hlen
  · exact (Forward.ask hp (below_of_rank (by decide)) (Nat.le_refl _)).bind
      fun e q hq hlen => .ok hq hlen

/-- **Arguments, one turn.** The next turn starts behind a comma. -/
theorem forward_argsAt {before : List Arg} (hp : p ≤ ts.length) :
    Forward ts ⟨.args, before, p⟩ (p + 1) (argsAt ts before p) := by
  refine (forward_argAt hp).bind fun a p₁ h₁ _ => ?_
  dsimp only
  split
  · next h => exact .ask (lt_of_getElem?_eq_some h) (below_of_lt (by omega)) (by omega)
  · next h => exact .ok (by omega) (lt_of_getElem?_eq_some h)
  · exact .error

/-- **Behind the first operand** of a right-hand side an operator may be passed, and then an
expression. -/
theorem forward_sourceBehindAt {dest left : Expr} (hc : c.pos < p) (hp : p ≤ ts.length)
    (hlo : lo ≤ p) : Forward ts c lo (sourceBehindAt ts dest left p) := by
  unfold sourceBehindAt
  split
  · exact .ok hlo hp
  · next h =>
    refine (Forward.passing (lt_of_getElem?_eq_some h)).bind fun op p₁ h₁ hlen₁ => ?_
    refine (Forward.ask hlen₁ (.inl (Nat.lt_trans hc h₁)) (Nat.le_refl _)).bind
      fun right p₂ h₂ hlen₂ => ?_
    exact .ok (by omega) hlen₂
  · exact .error

/-- **A right-hand side.** Its operands are read by lower readers. -/
theorem forward_sourceAt {dest : Expr} (hp : p ≤ ts.length) :
    Forward ts ⟨.source, dest, p⟩ (p + 1) (sourceAt ts dest p) := by
  unfold sourceAt
  split
  · next h =>
    refine (Forward.ask (Nat.le_of_lt (lt_of_getElem?_eq_some h)) (below_of_lt (by omega))
      (Nat.le_refl _)).bind fun args p₁ h₁ hlen₁ => ?_
    exact .ok (by omega) hlen₁
  · refine (Forward.ask hp (below_of_rank (by decide)) (Nat.le_refl _)).bind
      fun left p₁ h₁ hlen₁ => ?_
    exact forward_sourceBehindAt h₁ hlen₁ h₁

/-- **Behind the destination** of an assignment. -/
theorem forward_instBehindAt {dest : Expr} (hc : c.pos < p) :
    Forward ts c p (instBehindAt ts dest p) := by
  unfold instBehindAt
  split
  · next h => exact .ask (lt_of_getElem?_eq_some h) (.inl (Nat.lt_succ_of_lt hc)) (by omega)
  · next h =>
    refine (Forward.passing (lt_of_getElem?_eq_some h)).bind fun op p₁ h₁ _ => ?_
    refine Forward.tokenAt.bind fun _ p₂ h₂ hlen₂ => ?_
    have hlt : c.pos < p₂ := by omega
    refine (Forward.ask hlen₂ (.inl hlt) (Nat.le_refl _)).bind fun right p₃ h₃ hlen₃ => ?_
    exact .ok (by omega) hlen₃
  · exact .error

/-- **An assignment.** The right-hand side starts behind the equals sign. -/
theorem forward_assignedAt (hp : p ≤ ts.length) :
    Forward ts ⟨.inst, (), p⟩ (p + 1) (assignedAt ts p) := by
  refine (Forward.ask hp (below_of_rank (by decide)) (Nat.le_refl _)).bind fun dest p₁ h₁ _ => ?_
  refine (forward_instBehindAt h₁).bind fun i p₂ h₂ _ => ?_
  exact Forward.endAt.bind fun _ p₃ h₃ hlen₃ => .ok (by omega) hlen₃

/-- **A jump.** Its target stands behind its word. -/
theorem forward_targetAt {inst : Expr → Inst} (hc : c.pos < p) (hp : p ≤ ts.length)
    (hlo : lo ≤ p + 1) : Forward ts c lo (targetAt ts inst p) := by
  refine (Forward.ask hp (.inl hc) (Nat.le_refl _)).bind fun target p₁ h₁ _ => ?_
  exact Forward.endAt.bind fun _ p₂ h₂ hlen₂ => .ok (by omega) hlen₂

/-- **The first word** of an instruction is passed before anything else is read. -/
theorem forward_wordAt {word : String} (hp : p < ts.length) :
    Forward ts ⟨.inst, (), p⟩ (p + 1) (wordAt ts word p) := by
  unfold wordAt
  split
  · exact .ok (Nat.le_refl _) hp
  split
  · refine (Forward.ask hp (below_of_lt (by omega)) (Nat.le_refl _)).bind fun args p₁ h₁ _ => ?_
    exact Forward.endAt.bind fun _ p₂ h₂ hlen₂ => .ok (by omega) hlen₂
  split
  · exact forward_targetAt (Nat.lt_succ_self p) hp (by omega)
  split
  · exact forward_targetAt (Nat.lt_succ_self p) hp (by omega)
  · exact forward_assignedAt (Nat.le_of_lt hp)

/-- **An instruction.** -/
theorem forward_instAt (hp : p ≤ ts.length) : Forward ts ⟨.inst, (), p⟩ (p + 1) (instAt ts p) := by
  unfold instAt
  split
  · next h => exact forward_wordAt (lt_of_getElem?_eq_some h)
  · exact forward_assignedAt hp

/-- **Readers go forward.** A reader that starts in the list moves its cursor on within the list,
and so do the calls that it makes, which start below its own. -/
theorem keeps_forward (ts : List Token) :
    (program ts).Keeps (·.pos ≤ ts.length) Call.Below fun c => Lands ts (c.pos + 1) := by
  rintro ⟨r, i, p⟩ hp
  cases r with
  | expr => exact forward_exprAt
  | mem => exact forward_memAt
  | cond => exact forward_condAt
  | joins => exact forward_joinsAt
  | call => exact forward_callAt
  | args => exact forward_argsAt hp
  | source => exact forward_sourceAt hp
  | inst => exact forward_instAt hp

end Cursor

end FlowText
