import FlowText.Proofs.Cursor
import FlowText.Proofs.Grammar.Remainder

/-!
# What the readers with a cursor read

The readers go through a list of tokens with a cursor, or they take the tokens that are left. Both
read the same: with the cursor at a place, what the other reader makes of the tokens behind that
place (`Cursor.Call.reading`). A routine follows a reader if their results agree whenever those of
its calls do (`Cursor.Follows`).

So the readers with a cursor end with the results of the others, and stay in bounds
(`Cursor.readers_end_in_bounds`).
-/

namespace FlowText

open Token (lparen rparen comma)

namespace Cursor

/-- **Reading.** What the readers make of the tokens behind the cursor of a call. -/
def Call.reading (ts : List Token) : (c : Call) → Except GrammarError (c.reader.Output × List Token)
  | ⟨.expr, _, p⟩ => operand (ts.drop p)
  | ⟨.mem, _, p⟩ => operand (.symbol .star :: ts.drop p)
  | ⟨.cond, _, p⟩ => readCond (ts.drop p)
  | ⟨.joins, chain, p⟩ => readChain chain (ts.drop p)
  | ⟨.call, _, p⟩ => argumentList (ts.drop p)
  | ⟨.args, before, p⟩ => (someArguments (ts.drop p)).map fun (args, rest) => (before ++ args, rest)
  | ⟨.source, dest, p⟩ => rightHand dest (ts.drop p)
  | ⟨.inst, _, p⟩ => instructionFrom (decide (p = 0)) (ts.drop p)

/-! ### Agreement -/

variable {α β : Type}

/-- **Agrees.** The same was read, and the tokens that are left are those behind the cursor. -/
inductive Agrees (ts : List Token) :
    Except GrammarError (α × Nat) → Except GrammarError (α × List Token) → Prop where
  | ok {a : α} {q : Nat} (hq : q ≤ ts.length) : Agrees ts (.ok (a, q)) (.ok (a, ts.drop q))
  | error {e : GrammarError} : Agrees ts (.error e) (.error e)

/-- **Follows.** The result agrees with that of a reader if the calls agree with their readings. -/
def Follows (ts : List Token) (x : Read (α × Nat))
    (s : Except GrammarError (α × List Token)) : Prop :=
  x.Meets (fun _ => True) (fun c r => Agrees ts r (c.reading ts)) (Agrees ts · s)

variable {ts us : List Token} {p : Nat}

/-- Where no token is, none is left. -/
theorem drop_eq_nil (h : ts[p]? = none) : ts.drop p = [] :=
  List.drop_eq_nil_of_le (List.getElem?_eq_none_iff.1 h)

/-- The token at the cursor is the first of those behind it. -/
theorem drop_eq_cons {t : Token} (h : ts[p]? = some t) : ts.drop p = t :: ts.drop (p + 1) := by
  obtain ⟨hlt, rfl⟩ := List.getElem?_eq_some_iff.1 h
  exact List.drop_eq_getElem_cons hlt

/-- The first of the tokens that are left is the one at the cursor. -/
theorem getElem?_of_drop {t : Token} (h : ts.drop p = t :: us) : ts[p]? = some t := by
  rw [← List.head?_drop, h, List.head?_cons]

/-- Behind it the others are left. -/
theorem drop_succ_of_drop {t : Token} (h : ts.drop p = t :: us) : ts.drop (p + 1) = us := by
  rw [← List.tail_drop, h, List.tail_cons]

namespace Follows

/-- A routine that ends where it is leaves the tokens from there on. -/
theorem ok {a : α} {q : Nat} (hq : q ≤ ts.length) : Follows ts (pure (a, q)) (.ok (a, ts.drop q)) :=
  Agrees.ok hq

/-- Both are refused for the same reason. -/
theorem error {e : GrammarError} : Follows ts (.done (.error e) : Read (α × Nat))
    (.error e) := Agrees.error

/-- Both miss the same, and tell of the same token. -/
theorem missing {what : Expectation} (h : ts.drop p = us) :
    Follows ts (missing ts what p : Read (α × Nat)) (expected what us) := by
  subst h
  rw [expected, List.head?_drop]
  exact error

/-- **Sequence.** What is done behind a routine follows what is read behind its text. -/
theorem bind {x : Read (α × Nat)} {s : Except GrammarError (α × List Token)}
    {f : α × Nat → Read (β × Nat)}
    {g : α × List Token → Except GrammarError (β × List Token)} (hx : Follows ts x s)
    (hf : ∀ a q, q ≤ ts.length → Follows ts (f (a, q)) (g (a, ts.drop q))) :
    Follows ts (x >>= f) (s >>= g) := by
  refine Routine.Meets.bind hx (fun e h => ?_) fun a h => ?_
  · cases h
    exact .error
  · cases h with
    | ok hq => exact hf _ _ hq

/-- **Change of the result.** It is changed on both sides. -/
theorem map {x : Read (α × Nat)} {s : Except GrammarError (α × List Token)}
    {f : α × Nat → Read (β × Nat)} {g : α × List Token → β × List Token} (hx : Follows ts x s)
    (hf : ∀ a q, q ≤ ts.length → Follows ts (f (a, q)) (.ok (g (a, ts.drop q)))) :
    Follows ts (x >>= f) (s.map g) := by
  have h : Follows ts (x >>= f) (s >>= fun p => .ok (g p)) := hx.bind hf
  cases s <;> exact h

/-- A call follows its reading. -/
theorem ask {r : Reader} {i : r.Input} {s : Except GrammarError (r.Output × List Token)}
    (h : Call.reading ts ⟨r, i, p⟩ = s) : Follows ts (ask r i p) s := by
  subst h
  exact ⟨trivial, fun e h => h, fun (a, q) h => h⟩

/-- A test of the token at the cursor. -/
theorem ite {t : Token} {x y : Read (α × Nat)} {s : Except GrammarError (α × List Token)}
    (hyes : ts[p]? = some t → Follows ts x s)
    (hno : (∀ rest, ts.drop p ≠ t :: rest) → Follows ts y s) :
    Follows ts (if ts[p]? = some t then x else y) s := by
  split
  · next h => exact hyes h
  · next h => exact hno fun rest hrest => h (getElem?_of_drop hrest)

/-- **A given token.** It is there and passed, or it is missed. -/
theorem tokenAt {t : Token} {what : Expectation} {f : Unit × Nat → Read (α × Nat)}
    {s : Except GrammarError (α × List Token)}
    (hyes : ts[p]? = some t → Follows ts (f ((), p + 1)) s)
    (hno : (∀ rest, ts.drop p ≠ t :: rest) → s = expected what (ts.drop p)) :
    Follows ts (tokenAt ts t what p >>= f) s := by
  unfold Cursor.tokenAt
  split
  · next h => exact hyes h
  · next h =>
    rw [hno fun rest hrest => h (getElem?_of_drop hrest)]
    exact missing rfl

/-- **The name of a type.** Any word will do. -/
theorem typeAt {f : String × Nat → Read (α × Nat)} {s : Except GrammarError (α × List Token)}
    (hyes : ∀ ty, ts[p]? = some (.word ty) → Follows ts (f (ty, p + 1)) s)
    (hno : (∀ ty rest, ts.drop p ≠ .word ty :: rest) → s = expected .typeName (ts.drop p)) :
    Follows ts (typeAt ts p >>= f) s := by
  unfold Cursor.typeAt
  split
  · next ty h => exact hyes ty h
  · next h =>
    rw [hno fun ty rest hrest => h ty (getElem?_of_drop hrest)]
    exact missing rfl

/-- **What a token stands for.** It may be refused, which is told before anything else is asked. -/
theorem passing {r : Except GrammarError α} {f : α × Nat → Read (β × Nat)}
    {g : α → Except GrammarError (β × List Token)} (hf : ∀ a, Follows ts (f (a, p + 1)) (g a)) :
    Follows ts (passing p r >>= f) (r >>= g) := by
  cases r with
  | error e => exact error
  | ok a => exact hf a

/-- **The end.** Nothing may be left. -/
theorem endAt {a : α} (hp : p ≤ ts.length) :
    Follows ts (endAt ts p >>= fun (_, q) => pure (a, q))
      ((ended (ts.drop p)).map fun _ => (a, [])) := by
  unfold Cursor.endAt
  split
  · next h =>
    have hnil : ts.drop p = [] := List.drop_eq_nil_of_le (Nat.le_of_eq h.symm)
    have hok := ok (a := a) hp
    rw [hnil] at hok ⊢
    exact hok
  · next h =>
    have hcons := List.drop_eq_getElem_cons (Nat.lt_of_le_of_ne hp h)
    rw [hcons]
    exact missing hcons

/-- A reader that goes on only at the end of the tokens. -/
theorem thenEnded {x : Read (α × Nat)} {s : Except GrammarError (α × List Token)}
    {f : α × Nat → Read (β × Nat)} {g : α → β} (hx : Follows ts x s)
    (hf : ∀ a q, f (a, q) = Cursor.endAt ts q >>= fun (_, q) => pure (g a, q)) :
    Follows ts (x >>= f) (atEnd ((thenEnded s).map g)) := by
  rw [atEnd_thenEnded]
  refine hx.bind fun a q hq => ?_
  rw [hf]
  exact endAt hq

/-- **Range.** A number is made a value, or is out of the range of values. -/
theorem inRangeAt {z : Int} {radix : Radix} (hp : p ≤ ts.length) :
    Follows ts (inRangeAt z radix p) (inRange z radix (ts.drop p)) := by
  unfold Cursor.inRangeAt inRange
  cases word? z with
  | none => exact error
  | some w => exact ok hp

/-- **Number with a sign.** -/
theorem signedAt {what : Expectation} :
    Follows ts (signedAt ts what p) (signed what (ts.drop p)) := by
  unfold Cursor.signedAt
  split
  · next h₁ h₂ =>
    rw [drop_eq_cons h₁, drop_eq_cons h₂]
    exact inRangeAt (lt_of_getElem?_eq_some h₂)
  · next h =>
    rw [drop_eq_cons h]
    exact inRangeAt (lt_of_getElem?_eq_some h)
  · next hnumber hminus =>
    rw [signed]
    · exact missing rfl
    · intro n radix us hd
      exact hminus n radix (getElem?_of_drop hd) (getElem?_of_drop (drop_succ_of_drop hd))
    · intro n radix us hd
      exact hnumber n radix (getElem?_of_drop hd)

/-- **Offset of a memory reference.** -/
theorem offsetAt (hp : p ≤ ts.length) : Follows ts (offsetAt ts p) (memOffset (ts.drop p)) := by
  unfold Cursor.offsetAt
  split
  · next h =>
    rw [drop_eq_cons h]
    exact signedAt.map fun _ q hq => ok hq
  · next h =>
    have hsigned : Follows ts _ (signed .offset (ts.drop p)) := signedAt
    rw [drop_eq_cons h] at hsigned ⊢
    exact hsigned.map fun _ q hq => ok hq
  · next hplus hminus =>
    rw [memOffset]
    · exact ok hp
    · exact fun us hd => hplus (getElem?_of_drop hd)
    · exact fun us hd => hminus (getElem?_of_drop hd)

/-- **Operator of a comparison.** -/
theorem comparisonAt : Follows ts (comparisonAt ts p) (comparison (ts.drop p)) := by
  unfold Cursor.comparisonAt
  split
  · next s h =>
    rw [drop_eq_cons h, comparison]
    cases Comparison.ofSymbol s.text with
    | error e => exact error
    | ok op => exact ok (lt_of_getElem?_eq_some h)
  · next h =>
    rw [comparison]
    · exact missing rfl
    · exact fun s us hd => h s (getElem?_of_drop hd)

end Follows

/-- **Expression.** Its routine reads an operand. -/
theorem follows_exprAt : Follows ts (exprAt ts p) (operand (ts.drop p)) := by
  have hsigned : Follows ts _ (signed .expression (ts.drop p)) := Follows.signedAt
  unfold exprAt
  cases h : ts[p]? with
  | none =>
    rw [drop_eq_nil h]
    exact .missing (drop_eq_nil h)
  | some t =>
    have hlt := lt_of_getElem?_eq_some h
    rw [drop_eq_cons h] at hsigned ⊢
    cases t with
    | reg name => exact .ok hlt
    | word name => exact .ok hlt
    | number n radix => exact hsigned.map fun _ q hq => .ok hq
    | symbol s =>
      cases s with
      | minus => exact hsigned.map fun _ q hq => .ok hq
      | star => exact .ask rfl
      | _ => exact .missing (drop_eq_cons h)
    | _ => exact .missing (drop_eq_cons h)

/-- **Memory reference.** Its routine starts behind the star. -/
theorem follows_memAt : Follows ts (memAt ts p) (operand (.symbol .star :: ts.drop p)) := by
  refine .tokenAt (fun h => ?_) fun h => by rw [operand, badMemType] <;> grind
  rw [drop_eq_cons h]
  refine .typeAt (fun ty h => ?_) fun h => by rw [operand, badMemType] <;> grind
  rw [drop_eq_cons h]
  refine .tokenAt (fun h => ?_) fun h => by rw [operand, badMemType] <;> grind
  rw [drop_eq_cons h]
  refine .tokenAt (fun h => ?_) fun h => by rw [operand, badMemType] <;> grind
  rw [drop_eq_cons h]
  -- another parenthesis opens the base and its offset
  refine .ite (fun h => ?_) fun h => ?_
  · rw [drop_eq_cons h]
    change Follows ts _ (operand _ >>= _)
    refine .bind (.ask rfl) fun base q hq => .bind (.offsetAt hq) fun offset q hq => ?_
    refine .tokenAt (fun h => ?_) fun h => ?_
    · rw [drop_eq_cons h]
      exact .ok (lt_of_getElem?_eq_some h)
    · change closeBase (ts.drop q) >>= _ = _
      rw [closeBase]
      · rfl
      · exact h
  · refine operand_base h ▸ ?_
    exact .bind (.ask rfl) fun base q hq => .ok hq

/-- **Condition.** -/
theorem follows_condAt : Follows ts (condAt ts p) (readCond (ts.drop p)) := by
  refine .tokenAt (fun h => ?_) readCond_ne_lparen
  rw [drop_eq_cons h]
  refine .ite (fun h => ?_) fun h => ?_
  · rw [drop_eq_cons h, readCond_compound, ← drop_eq_cons h]
    exact .bind (.ask rfl) fun first q hq => .bind (.ask rfl) fun chain q hq => .ok hq
  · rw [readCond_simple h, simple]
    refine .bind (.ask rfl) fun lhs q hq => .bind .comparisonAt fun op q hq => ?_
    refine .bind (.ask rfl) fun rhs q hq => ?_
    refine .tokenAt (fun h => ?_) fun h => ?_
    · rw [drop_eq_cons h]
      exact .ok (lt_of_getElem?_eq_some h)
    · change closeCond (ts.drop q) >>= _ = _
      rw [closeCond]
      · rfl
      · exact h

/-- **Chain.** The loop adds pairs as the reader of a chain does. -/
theorem follows_joinsAt {chain : Chain} :
    Follows ts (joinsAt ts chain p) (readChain chain (ts.drop p)) := by
  refine .ite (fun h => ?_) fun hno => ?_
  · rw [drop_eq_cons h, readChain_rparen]
    exact .ok (lt_of_getElem?_eq_some h)
  unfold connectiveAt
  cases h : ts[p]? with
  | none =>
    rw [drop_eq_nil h, readChain_nil]
    exact .missing (drop_eq_nil h)
  | some t =>
    have ht : t ≠ rparen := fun he => hno _ (he ▸ drop_eq_cons h)
    rw [drop_eq_cons h, readChain_cons chain ht, Option.bind_some]
    cases connectiveWord? t with
    | none => exact .missing (drop_eq_cons h)
    | some word => exact .passing fun op => .bind (.ask rfl) fun next q hq => .ask rfl

/-- **Call.** Its arguments are read up to the closing parenthesis. -/
theorem follows_callAt : Follows ts (callAt ts p) (argumentList (ts.drop p)) := by
  refine .tokenAt (fun h => ?_) fun h => ?_
  · rw [drop_eq_cons h, argumentList]
    refine .ite (fun h => ?_) fun h => ?_
    · rw [drop_eq_cons h]
      exact .ok (lt_of_getElem?_eq_some h)
    · rw [arguments]
      · exact .ask (map_nil_append _)
      · exact h
  · rw [argumentList]
    exact h

/-- **Argument.** It is a condition or an expression. -/
theorem follows_argAt : Follows ts (argAt ts p) (readArg (ts.drop p)) := by
  refine .ite (fun h => ?_) fun h => ?_
  · rw [drop_eq_cons h, readArg_cond, ← drop_eq_cons h]
    exact .map (.ask rfl) fun c q hq => .ok hq
  · rw [readArg_expr h]
    exact .map (.ask rfl) fun e q hq => .ok hq

/-- **Arguments.** The loop keeps those that it has, which come first. -/
theorem follows_argsAt {before : List Arg} :
    Follows ts (argsAt ts before p)
      ((someArguments (ts.drop p)).map fun (args, rest) => (before ++ args, rest)) := by
  rw [someArguments_eq, map_bind_result]
  refine .bind follows_argAt fun a q hq => ?_
  dsimp only
  cases h : ts[q]? with
  | none =>
    rw [drop_eq_nil h]
    exact .missing (drop_eq_nil h)
  | some t =>
    rw [drop_eq_cons h]
    cases t with
    | comma => exact .ask (map_append_concat before a _)
    | rparen => exact .ok (lt_of_getElem?_eq_some h)
    | _ => exact .missing (drop_eq_cons h)

/-- **Right-hand side, behind its first operand.** -/
theorem follows_sourceBehindAt {dest left : Expr} (hp : p ≤ ts.length) :
    Follows ts (sourceBehindAt ts dest left p) (rightHandBehind dest left (ts.drop p)) := by
  have hok := Follows.ok (a := Inst.assign dest left) hp
  unfold sourceBehindAt
  cases h : ts[p]? with
  | none =>
    rw [drop_eq_nil h] at hok ⊢
    exact hok
  | some t =>
    rw [drop_eq_cons h]
    cases t with
    | symbol s => exact .passing fun op => .bind (.ask rfl) fun right q hq => .ok hq
    | _ => exact .missing (drop_eq_cons h)

/-- **Right-hand side.** -/
theorem follows_sourceAt {dest : Expr} :
    Follows ts (sourceAt ts dest p) (rightHand dest (ts.drop p)) := by
  unfold sourceAt
  split
  · next name h₁ h₂ =>
    rw [drop_eq_cons h₁, drop_eq_cons h₂]
    exact .map (.ask (congrArg argumentList (drop_eq_cons h₂))) fun args q hq => .ok hq
  · next hno =>
    rw [rightHand_operand]
    · exact .bind (.ask rfl) fun left q hq => follows_sourceBehindAt hq
    · intro name us hd
      exact hno name (getElem?_of_drop hd) (getElem?_of_drop (drop_succ_of_drop hd))

/-- **Instruction, behind its destination.** -/
theorem follows_instBehindAt {dest : Expr} :
    Follows ts (instBehindAt ts dest p) (destBehind dest (ts.drop p)) := by
  unfold instBehindAt
  cases h : ts[p]? with
  | none =>
    rw [drop_eq_nil h]
    exact .missing (drop_eq_nil h)
  | some t =>
    rw [drop_eq_cons h]
    cases t with
    | assign => exact .ask rfl
    | symbol s =>
      refine .passing fun op => .tokenAt (fun h => ?_) fun h => ?_
      · rw [drop_eq_cons h]
        exact .bind (.ask rfl) fun right q hq => .ok hq
      · rw [updateBehind]
        exact h
    | _ => exact .missing (drop_eq_cons h)

/-- **Instruction that starts with an expression.** -/
theorem follows_assignedAt :
    Follows ts (assignedAt ts p) (atEnd (thenEnded (assigned (ts.drop p)))) := by
  rw [assigned, thenEnded_bind, atEnd, map_bind_result]
  refine .bind (.ask rfl) fun dest q hq => ?_
  have hid : (thenEnded (destBehind dest (ts.drop q))).map id =
      thenEnded (destBehind dest (ts.drop q)) :=
    congrFun Except.map_id _
  dsimp only
  rw [← hid]
  exact .thenEnded follows_instBehindAt fun _ _ => rfl

/-- **Instruction with a target behind its keyword.** -/
theorem follows_targetAt {inst : Expr → Inst} :
    Follows ts (targetAt ts inst p) (atEnd ((lastOperand (ts.drop p)).map inst)) :=
  .thenEnded (.ask rfl) fun _ _ => rfl

/-- **Instruction that starts with a word.** It matters whether the word stands at the start of the
text. -/
theorem follows_wordAt {word : String} (h : ts[p]? = some (.word word)) :
    Follows ts (wordAt ts word p) (instructionFrom (decide (p = 0)) (ts.drop p)) := by
  have hlt := lt_of_getElem?_eq_some h
  have hd := drop_eq_cons h
  unfold wordAt
  split
  · next hret =>
    obtain ⟨rfl, hlen⟩ := hret
    obtain rfl : p = 0 := by omega
    have hnil : ts.drop (0 + 1) = [] := List.drop_eq_nil_of_le (by omega)
    have hok := Follows.ok (a := Inst.ret) hlt
    rw [hd]
    rw [hnil] at hok ⊢
    exact hok
  next hret =>
  refine .ite (fun hparen => ?_) fun hparen => ?_
  · rw [hd, drop_eq_cons hparen, instructionFrom_of_ne, instruction, application_eq]
    · exact .thenEnded (.ask (congrArg argumentList (drop_eq_cons hparen))) fun _ _ => rfl
    · simp
  split
  · next hgoto =>
    subst hgoto
    rw [hd, instructionFrom_of_ne (by simp), instruction_goto hparen]
    exact follows_targetAt
  next hgoto =>
  split
  · next hcall =>
    subst hcall
    rw [hd, instructionFrom_of_ne (by simp), instruction_call hparen]
    exact follows_targetAt
  next hcall =>
  rw [instructionFrom_operand]
  · exact follows_assignedAt
  · intro hp hone
    obtain rfl : p = 0 := of_decide_eq_true hp
    obtain ⟨hword, hnil⟩ := List.cons.inj (hd.symm.trans hone)
    have hlen := List.drop_eq_nil_iff.1 hnil
    exact hret ⟨Token.word.inj hword, by omega⟩
  · exact fun name us he => hparen us (List.cons.inj (hd.symm.trans he)).2
  · exact fun us he => hgoto (Token.word.inj (List.cons.inj (hd.symm.trans he)).1)
  · exact fun us he => hcall (Token.word.inj (List.cons.inj (hd.symm.trans he)).1)

/-- **Instruction.** -/
theorem follows_instAt :
    Follows ts (instAt ts p) (instructionFrom (decide (p = 0)) (ts.drop p)) := by
  unfold instAt
  split
  · next word h => exact follows_wordAt h
  · next h =>
    have hword : ∀ word us, ts.drop p ≠ .word word :: us :=
      fun word us hd => h word (getElem?_of_drop hd)
    rw [instructionFrom_operand fun _ => hword _ _]
    · exact follows_assignedAt
    · exact fun name us => hword _ _
    · exact fun us => hword _ _
    · exact fun us => hword _ _

/-- **Readers follow.** Every reader with a cursor gives back what its reading says. -/
theorem keeps_reading (ts : List Token) :
    (program ts).Keeps (fun _ => True) (fun _ _ => True) fun c r => Agrees ts r (c.reading ts) := by
  rintro ⟨r, i, p⟩ -
  simp only [and_self]
  cases r with
  | expr => exact follows_exprAt
  | mem => exact follows_memAt
  | cond => exact follows_condAt
  | joins => exact follows_joinsAt
  | call => exact follows_callAt
  | args => exact follows_argsAt
  | source => exact follows_sourceAt
  | inst => exact follows_instAt

/-! ### Whole runs -/

/-- The cursor stands where the tokens begin that are left. -/
def located (ts : List Token) (s : Except GrammarError (α × List Token)) :
    Except GrammarError (α × Nat) :=
  s.map fun (a, rest) => (a, ts.length - rest.length)

/-- What agrees with a reading is told by it: the place is how many tokens are gone. -/
theorem Agrees.eq_located {r : Except GrammarError (α × Nat)}
    {s : Except GrammarError (α × List Token)} (h : Agrees ts r s) : r = located ts s := by
  cases h with
  | error => rfl
  | @ok a q hq =>
    have hpos : q = ts.length - (ts.drop q).length := by rw [List.length_drop, Nat.sub_sub_self hq]
    exact congrArg (fun q => Except.ok (a, q)) hpos

/-- **Nesting.** How deep other calls are nested in a call at most: one for a reader of the higher
rank, which may stay where it is, and two for each token that is left. -/
def Call.nesting (ts : List Token) (c : Call) : Nat := 2 * (ts.length - c.pos) + c.reader.rank

/-- A call that is below another one may be nested in it, and not the other way round. -/
theorem Call.nesting_lt (c c' : Call) (hc' : c'.pos ≤ ts.length) (h : c'.Below c) :
    c'.nesting ts < c.nesting ts := by
  have hrank : c'.reader.rank ≤ 1 := by cases c'.reader <;> decide
  unfold Call.Below at h
  unfold Call.nesting
  omega

/-- **Runs.** A reader that starts in the list ends with its reading, at any depth that is
enough. -/
theorem runTo_eq_located {c : Call} (hc : c.pos ≤ ts.length) {n : Nat} (hn : c.nesting ts < n) :
    (program ts).runTo n c = some (located ts (c.reading ts)) := by
  obtain ⟨r, hr⟩ := (keeps_forward ts).ends Call.nesting_lt hc hn
  rw [hr, ((keeps_reading ts).result trivial hr).eq_located]

/-- **Readers end in bounds.** A reader that starts in the list ends, with its reading. If it
succeeds, it has moved its cursor on and not past the end of the list. The calls that are nested in
its own stay in the list as well, and a call of the same reader, be it a part of what is read or a
further turn of a loop, starts further on. -/
theorem readers_end_in_bounds (ts : List Token) (c : Call) (h : c.pos ≤ ts.length) :
    (∀ n, c.nesting ts < n → (program ts).runTo n c = some (located ts (c.reading ts))) ∧
      (∀ a q, located ts (c.reading ts) = .ok (a, q) → c.pos < q ∧ q ≤ ts.length) ∧
      ∀ c', Relation.TransGen (program ts).Makes c c' →
        c.pos ≤ c'.pos ∧ c'.pos ≤ ts.length ∧ (c'.reader = c.reader → c.pos < c'.pos) := by
  refine ⟨fun n hn => runTo_eq_located h hn, fun a q hr => ?_, fun c' hm => ?_⟩
  · have hrun := runTo_eq_located h (Nat.lt_succ_self _)
    exact (keeps_forward ts).result h hrun a q hr
  · obtain ⟨hlen, hlt | ⟨hpos, hrank⟩⟩ := (keeps_forward ts).of_nested Call.below_trans h hm
    · exact ⟨Nat.le_of_lt hlt, hlen, fun _ => hlt⟩
    · refine ⟨Nat.le_of_eq hpos, hlen, fun hr => ?_⟩
      rw [hr] at hrank
      exact absurd hrank (Nat.lt_irrefl _)

/-- The tokens of `((a == b) && (c == d))`. -/
def twoConds : List Token :=
  [lparen, lparen, .word "a", .symbol .eq, .word "b", rparen, .symbol .and,
    lparen, .word "c", .symbol .eq, .word "d", rparen, rparen]

/-- The second condition is read in a turn of the loop, from the eighth token on. -/
theorem makes_secondCond :
    Relation.TransGen (program twoConds).Makes ⟨.cond, (), 0⟩ ⟨.cond, (), 7⟩ :=
  .tail (.single ⟨9, List.mem_of_getElem? (i := 1) rfl⟩) ⟨9, List.mem_of_getElem? (i := 0) rfl⟩

/-- Two comparisons are joined: the inner readers start inside the text, further on than the outer
one, and all end inside it. -/
theorem twoConds_end_in_bounds :
    (program twoConds).runTo 27 ⟨.cond, (), 0⟩ = some (located twoConds (readCond twoConds)) ∧
      located twoConds (readCond twoConds) =
        .ok (.compound (.join (.single (.simple (.addr "a") .eq (.addr "b"))) .and
          (.simple (.addr "c") .eq (.addr "d"))), 13) ∧
      (0 < 13 ∧ 13 ≤ twoConds.length) ∧
      Relation.TransGen (program twoConds).Makes ⟨.cond, (), 0⟩ ⟨.cond, (), 7⟩ ∧
      0 < 7 ∧ 7 ≤ twoConds.length := by
  obtain ⟨hrun, hpos, hnested⟩ := readers_end_in_bounds twoConds ⟨.cond, (), 0⟩ (by decide)
  have hr := hrun 27 (by decide)
  have hok : located twoConds (readCond twoConds) = .ok _ := Option.some.inj (hr.symm.trans rfl)
  obtain ⟨-, hin, hfurther⟩ := hnested _ makes_secondCond
  exact ⟨hr, hok, hpos _ _ hok, makes_secondCond, hfurther rfl, hin⟩

/-- **Instructions.** From the first token on, the routine of instructions reads what the reader
does. -/
theorem runTo_inst {n : Nat} (hn : 2 * ts.length + 1 < n) :
    (program ts).runTo n ⟨.inst, (), 0⟩ = some ((instruction ts).map (·, ts.length)) := by
  rw [runTo_eq_located (Nat.zero_le _) hn]
  change some (located ts (instructionFrom true ts)) = _
  rw [instructionFrom_start]
  cases instruction ts <;> rfl

end Cursor

end FlowText
