import FlowText.Proofs.Spelling
import FlowText.Proofs.Writing

/-!
# Canonical texts read back

Reading the canonical text of a readable value gives the value: expressions and conditions exactly,
instructions up to `Inst.same`. The other way round, whatever a reader accepts is readable, so a
value that was read can be written and read again.

* `canonical_texts_read_back` — the round trip for all kinds of values together.
* `readable_of_ofText` — what is read is readable.
* `ofText_ne_ok_of_slash`, `ofText_ne_ok_of_exits`, `ofText_ne_ok_of_placeholder` — marks of a dump
  are no instructions.
-/

namespace FlowText

open Token (lparen rparen)

/-! ### Reading what a text spells -/

/-- A text is read if its tokens are. -/
theorem readText_of_lex {α : Type} {read : List Token → Except GrammarError α} {s : String}
    {ts : List Token} {a : α} (hl : lex s.toList = .ok ts) (hr : read ts = .ok a) :
    readText read s = .ok a := by
  rw [readText, hl]
  exact mapError_eq_ok_iff.2 hr

/-- A text that is read has tokens that are read. -/
theorem exists_of_readText {α : Type} {read : List Token → Except GrammarError α} {s : String}
    {a : α} (h : readText read s = .ok a) : ∃ ts, lex s.toList = .ok ts ∧ read ts = .ok a := by
  rw [readText] at h
  cases hl : lex s.toList with
  | error e =>
    rw [hl] at h
    cases h
  | ok ts =>
    rw [hl] at h
    exact ⟨ts, rfl, mapError_eq_ok_iff.1 h⟩

/-- **Instructions** are read from the texts whose tokens derive them. -/
theorem Inst.ofText_eq_ok_iff {s : String} {i : Inst} :
    Inst.ofText s = .ok i ↔ ∃ ts, lex s.toList = .ok ts ∧ IsInst ts i := by
  constructor
  · intro h
    obtain ⟨ts, hl, hr⟩ := exists_of_readText h
    exact ⟨ts, hl, instruction_eq_ok_iff.1 hr⟩
  · rintro ⟨ts, hl, hr⟩
    exact readText_of_lex hl (instruction_eq_ok_iff.2 hr)

/-- **Expressions** are read from the texts whose tokens derive them. -/
theorem Expr.ofText_eq_ok_iff {s : String} {e : Expr} :
    Expr.ofText s = .ok e ↔ ∃ ts, lex s.toList = .ok ts ∧ IsExpr ts e := by
  constructor
  · intro h
    obtain ⟨ts, hl, hr⟩ := exists_of_readText h
    exact ⟨ts, hl, isExpr_of_lastOperand hr⟩
  · rintro ⟨ts, hl, hr⟩
    exact readText_of_lex hl (lastOperand_of_isExpr hr)

/-- Reading a condition that takes up all tokens. -/
theorem readCond_eq_ok_iff {ts : List Token} {c : Cond} :
    readCond ts = .ok (c, []) ↔ IsCond ts c := by
  constructor
  · intro h
    obtain ⟨us, rfl, hs⟩ := exists_of_readCond h
    rwa [List.append_nil]
  · intro h
    have hr := readCond_append h []
    rwa [List.append_nil] at hr

/-- **Conditions** are read from the texts whose tokens derive them. -/
theorem Cond.ofText_eq_ok_iff {s : String} {c : Cond} :
    Cond.ofText s = .ok c ↔ ∃ ts, lex s.toList = .ok ts ∧ IsCond ts c := by
  constructor
  · intro h
    obtain ⟨ts, hl, hr⟩ := exists_of_readText h
    obtain ⟨p, hc, hr₁⟩ := ok_of_bind hr
    obtain ⟨u, hu, hr₂⟩ := ok_of_bind hr₁
    cases hr₂
    refine ⟨ts, hl, readCond_eq_ok_iff.1 ?_⟩
    rw [readCond, hc, ← eq_nil_of_ended hu]
    rfl
  · rintro ⟨ts, hl, hs⟩
    obtain ⟨p, hc, hp⟩ := ok_of_map (readCond_eq_ok_iff.2 hs)
    obtain ⟨rfl, hrest⟩ := Prod.mk.inj hp
    refine readText_of_lex hl ?_
    rw [hc]
    change (do ended p.rest; return p.value) = Except.ok p.value
    rw [hrest]
    rfl

/-- An expression that can be read is read back from its text. -/
theorem Expr.Readable.ofText {e : Expr} (h : e.Readable) : Expr.ofText e.text = .ok e := by
  obtain ⟨ts, hs, hts⟩ := h.spells
  exact Expr.ofText_eq_ok_iff.2 ⟨ts, hs.lex_eq, hts⟩

/-- A condition that can be read is read back from its text. -/
theorem Cond.Readable.ofText {c : Cond} (h : c.Readable) : Cond.ofText c.text = .ok c := by
  obtain ⟨ts, hs, hts⟩ := h.marks
  exact Cond.ofText_eq_ok_iff.2 ⟨ts, hs.lex_eq, hts⟩

/-- The text of a readable operation says an operation that respells it. -/
theorem Operation.Readable.ofText {o : Operation} (h : o.Readable) :
    ∃ form p, o.form = .ok form ∧ Inst.ofText form.text = .ok ⟨p, []⟩ ∧ p.Respells o := by
  obtain ⟨form, ts, p, hf, hs, hi, hp⟩ := h.spells
  exact ⟨form, p, hf, Inst.ofText_eq_ok_iff.2 ⟨ts, hs.lex_eq, hi⟩, hp⟩

/-! ### What is read is readable -/

/-- **What is derived can be read.** An expression. -/
theorem readable_of_isExpr {ts : List Token} {e : Expr} (h : IsExpr ts e)
    (hp : ∀ t ∈ ts, t.Proper) : e.Readable := by
  induction h with
  | @reg name => exact ⟨rfl, hp (.reg name) List.mem_cons_self⟩
  | value => exact rfl
  | @addr name => exact ⟨rfl, hp (.word name) List.mem_cons_self⟩
  | @direct ty ts base h ih =>
    exact ⟨rfl, hp (.word ty) (by simp [typeTokens]), ih fun t ht => hp t (by simp [ht])⟩
  | @offset ty ts os base w h ho ih =>
    exact ⟨rfl, hp (.word ty) (by simp [typeTokens]), ih fun t ht => hp t (by simp [ht])⟩

mutual

/-- A condition. -/
theorem readable_of_isCond {ts : List Token} {c : Cond} (h : IsCond ts c)
    (hp : ∀ t ∈ ts, t.Proper) : c.Readable := by
  match h with
  | .simple hl _ hr =>
    intro e he
    simp only [Cond.exprs, List.mem_cons, List.not_mem_nil, or_false] at he
    rcases he with rfl | rfl
    · exact readable_of_isExpr hl fun t ht => hp t (by simp [ht])
    · exact readable_of_isExpr hr fun t ht => hp t (by simp [ht])
  | .compound h => exact readable_of_isChain h fun t ht => hp t (by simp [ht])

/-- The chain of a compound. -/
theorem readable_of_isChain {ts : List Token} {chain : Chain} (h : IsChain ts chain)
    (hp : ∀ t ∈ ts, t.Proper) : chain.Readable := by
  match h with
  | .single h => exact readable_of_isCond h hp
  | .join h _ _ hc =>
    intro e he
    rcases List.mem_append.1 he with he | he
    · exact readable_of_isChain h (fun t ht => hp t (by simp [ht])) e he
    · exact readable_of_isCond hc (fun t ht => hp t (by simp [ht])) e he

end

/-- An argument. -/
theorem readable_of_isArg {ts : List Token} {a : Arg} (h : IsArg ts a)
    (hp : ∀ t ∈ ts, t.Proper) : a.Readable := by
  cases h with
  | expr h => exact readable_of_isExpr h hp
  | cond h => exact readable_of_isCond h hp

/-- Arguments with commas between them. -/
theorem readable_of_isArgs {ts : List Token} {args : List Arg} (h : IsArgs ts args)
    (hp : ∀ t ∈ ts, t.Proper) : ∀ a ∈ args, a.Readable := by
  induction h with
  | one h =>
    intro a ha
    obtain rfl := List.mem_singleton.1 ha
    exact readable_of_isArg h hp
  | more h hs ih =>
    intro a ha
    rcases List.mem_cons.1 ha with rfl | ha
    · exact readable_of_isArg h fun t ht => hp t (by simp [ht])
    · exact ih (fun t ht => hp t (by simp [ht])) a ha

/-- Arguments up to the closing parenthesis. -/
theorem readable_of_isArgList {ts : List Token} {args : List Arg} (h : IsArgList ts args)
    (hp : ∀ t ∈ ts, t.Proper) : ∀ a ∈ args, a.Readable := by
  cases h with
  | none => exact fun a ha => absurd ha List.not_mem_nil
  | some h => exact readable_of_isArgs h hp

/-- A destination. -/
theorem isDestination_of_isDest {ts : List Token} {d : Expr} (h : IsDest ts d)
    (hp : ∀ t ∈ ts, t.Proper) : d.IsDestination :=
  ⟨readable_of_isExpr h.expr hp, h.ne_goto, h.ne_call⟩

/-- **What is read is readable**, and has no history. -/
theorem readable_of_isInst {ts : List Token} {i : Inst} (h : IsInst ts i)
    (hp : ∀ t ∈ ts, t.Proper) : i.toOperation.Readable ∧ i.origins = [] := by
  cases h with
  | ret => exact ⟨.ret, rfl⟩
  | goto h => exact ⟨.goto (readable_of_isExpr h fun t ht => hp t (by simp [ht])), rfl⟩
  | call h => exact ⟨.call (readable_of_isExpr h fun t ht => hp t (by simp [ht])), rfl⟩
  | @apply name ts args h =>
    have hn : IsWord name := hp (.word name) List.mem_cons_self
    exact ⟨.named nofun hn (readable_of_isArgList h fun t ht => hp t (by simp [ht])), rfl⟩
  | @applyTo ds ts d name args hd h =>
    have hn : IsWord name := hp (.word name) (by simp)
    have hdest := isDestination_of_isDest hd fun t ht => hp t (by simp [ht])
    refine ⟨.named ?_ hn (readable_of_isArgList h fun t ht => hp t (by simp [ht])), rfl⟩
    intro e he
    obtain rfl := Option.some.inj he
    exact hdest
  | assign hd h =>
    have hdest := isDestination_of_isDest hd fun t ht => hp t (by simp [ht])
    exact ⟨.assign hdest (readable_of_isExpr h fun t ht => hp t (by simp [ht])), rfl⟩
  | binary hd hl ho hr =>
    have hdest := isDestination_of_isDest hd fun t ht => hp t (by simp [ht])
    exact ⟨.binary hdest (readable_of_isExpr hl fun t ht => hp t (by simp [ht]))
      (readable_of_isExpr hr fun t ht => hp t (by simp [ht])), rfl⟩
  | update hd ho hr =>
    have hdest := isDestination_of_isDest hd fun t ht => hp t (by simp [ht])
    exact ⟨.binary hdest hdest.1 (readable_of_isExpr hr fun t ht => hp t (by simp [ht])), rfl⟩

/-- **What was read can be read.** An instruction, which has no provenance yet. -/
theorem readable_of_ofText {s : String} {i : Inst} (h : Inst.ofText s = .ok i) :
    i.toOperation.Readable ∧ i.origins = [] := by
  obtain ⟨ts, hl, hi⟩ := Inst.ofText_eq_ok_iff.1 h
  exact readable_of_isInst hi (proper_of_lex hl)

/-- An expression. -/
theorem Expr.readable_of_ofText {s : String} {e : Expr} (h : Expr.ofText s = .ok e) :
    e.Readable := by
  obtain ⟨ts, hl, he⟩ := Expr.ofText_eq_ok_iff.1 h
  exact readable_of_isExpr he (proper_of_lex hl)

/-- A condition. -/
theorem Cond.readable_of_ofText {s : String} {c : Cond} (h : Cond.ofText s = .ok c) :
    c.Readable := by
  obtain ⟨ts, hl, hc⟩ := Cond.ofText_eq_ok_iff.1 h
  exact readable_of_isCond hc (proper_of_lex hl)

/-! ### Marks of a dump are no instructions -/

/-- No instruction starts with a slash, as the lines behind two slashes do. -/
theorem ofText_ne_ok_of_slash {s : String} {cs : List Char} {i : Inst}
    (hs : s.toList = '/' :: cs) : Inst.ofText s ≠ .ok i := by
  intro h
  obtain ⟨ts, hl, hr⟩ := exists_of_readText h
  rw [hs, lex_first (t := .symbol .slash) (by decide) rfl] at hl
  obtain ⟨us, -, rfl⟩ := ok_of_map hl
  cases hr

/-- The colon of the mark for exits is no token. -/
theorem ofText_ne_ok_of_exits {s : String} {cs : List Char} {i : Inst}
    (hs : s.toList = "Exits:".toList ++ cs) : Inst.ofText s ≠ .ok i := by
  intro h
  obtain ⟨ts, hl, -⟩ := exists_of_readText h
  have hword : Token.first 'E' ("xits:".toList ++ cs) = .ok (.word "Exits", ':' :: cs) := rfl
  have hcolon : Token.first ':' cs = .error (.unexpected ':') := rfl
  rw [hs, show "Exits:".toList ++ cs = 'E' :: ("xits:".toList ++ cs) from rfl,
    lex_first (by decide) hword, lex_first_error (by decide) hcolon] at hl
  cases hl

/-- The placeholder of a missing block is a word alone. -/
theorem ofText_ne_ok_of_placeholder {i : Inst} : Inst.ofText "    None" ≠ .ok i := by
  intro h
  obtain ⟨ts, hl, hr⟩ := exists_of_readText h
  have hword : Spells endsName "None" [.word "None"] := spells_word (by decide)
  have hb : Marks "    " [] :=
    marks_blank.append (marks_blank.append (marks_blank.append marks_blank))
  rw [show "    None" = "    " ++ "None" from rfl, (hb.append hword).lex_eq] at hl
  cases hl
  cases hr

/-! ### The round trip -/

/-- Without provenance the canonical text is that of the form. -/
theorem canonical_eq_of_form {i : Inst} {form : Form} (ho : i.origins = [])
    (hf : i.form = .ok form) : i.canonical = .ok form.text := by
  have hw : Emit.Writes i.write () form.text := by
    rw [Inst.write, ho, Operation.write]
    refine Emit.Writes.lift_bind ?_ (Emit.writes_emit form.text)
    rw [hf]
    rfl
  rw [Inst.canonical, Emit.text_of_writes hw]

/-- A readable operation without a history has a canonical text. What is read from it is the same
instruction, and has that text again: the two may differ in a radix, but not in their texts. -/
theorem Operation.Readable.settles {i : Inst} (ho : i.origins = []) (h : i.toOperation.Readable) :
    ∃ text j, i.canonical = .ok text ∧ Inst.ofText text = .ok j ∧ j.same i = true ∧
      j.origins = [] ∧ j.canonical = .ok text := by
  obtain ⟨form, p, hf, hr, hp⟩ := h.ofText
  refine ⟨form.text, ⟨p, []⟩, canonical_eq_of_form ho hf, hr, hp.same, rfl, ?_⟩
  obtain ⟨form', hf', ht⟩ := ok_of_map (hp.text.trans (by rw [hf]; rfl))
  rw [← ht]
  exact canonical_eq_of_form rfl hf'

/-- **Canonical texts read back.** Expressions and conditions are read as they are. The instruction
that is read is the same as the one that was written, has its text and has no history. A call of a
synthetic function is read as a call by name: nothing in the text tells that the function is
synthetic. -/
theorem canonical_texts_read_back :
    (∀ e : Expr, e.Readable → Expr.ofText e.text = .ok e) ∧
    (∀ c : Cond, c.Readable → Cond.ofText c.text = .ok c) ∧
    (∀ i : Inst, i.origins = [] → i.toOperation.Readable →
      ∃ text j, i.canonical = .ok text ∧ Inst.ofText text = .ok j ∧ j.same i = true ∧
        j.origins = [] ∧ j.canonical = .ok text) ∧
    (∀ (i : Inst) (name comment : String) (args : List Arg), i.origins = [] →
      i.op = .synthetic → i.args = .expr (.synthetic name comment) :: args →
      IsWord (comment ++ name) → (∀ d ∈ i.dest, d.IsDestination) → (∀ a ∈ args, a.Readable) →
      ∃ text, i.canonical = .ok text ∧
        Inst.ofText text = .ok (.named i.dest (comment ++ name) args)) := by
  refine ⟨fun e h => h.ofText, fun c h => h.ofText, fun i ho h => h.settles ho, ?_⟩
  -- the comment stands in front of the name without anything between them
  intro i name comment args ho hop hargs hn hd ha
  have hform : i.form = .ok (.apply i.dest (comment ++ name) args) := by
    rw [Operation.form, hop, hargs]
    rfl
  obtain ⟨ts, hs, hi⟩ := spells_apply hd hn ha
  exact ⟨_, canonical_eq_of_form ho hform, Inst.ofText_eq_ok_iff.2 ⟨ts, hs.lex_eq, hi⟩⟩

/-- The round trip of a nested reference with the smallest offset, of a compound of one condition,
of an operator that is applied to its destination, and of a call of a synthetic function. -/
theorem nested_texts_read_back :
    (let e : Expr := .mem "u8" (.mem ".x" (.reg "0") Int64.minValue) 5;
      e.Readable ∧ Expr.ofText e.text = .ok e) ∧
    (let c : Cond := .compound (.single (.simple (.reg "r1") .le (.value (-1) .dec)));
      c.Readable ∧ Cond.ofText c.text = .ok c) ∧
    (let i : Inst := .binary (.reg "r1") .sub [.reg "r1", .value (-1)];
      i.toOperation.Readable ∧ ∃ text j, i.canonical = .ok text ∧ Inst.ofText text = .ok j ∧
        j.same i = true ∧ j.origins = [] ∧ j.canonical = .ok text) ∧
    (let i : Inst := .synthetic (some (.addr "return")) "phi" [.reg "r1"];
      ∃ text, i.canonical = .ok text ∧
        Inst.ofText text = .ok (.named i.dest ("" ++ "phi") [.expr (.reg "r1")])) := by
  obtain ⟨hexpr, hcond, hinst, hcall⟩ := canonical_texts_read_back
  have hbinary : (Inst.binary (.reg "r1") .sub [.reg "r1", .value (-1)]).toOperation.Readable :=
    .binary (by decide) (by decide) (by decide)
  refine ⟨⟨by decide, hexpr _ (by decide)⟩, ⟨by decide, hcond _ (by decide)⟩,
    ⟨hbinary, hinst _ rfl hbinary⟩, hcall _ "phi" "" [.expr (.reg "r1")] rfl rfl rfl (by decide)
      ?_ (by decide)⟩
  rintro d ⟨⟩
  decide

end FlowText
