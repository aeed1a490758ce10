import FlowText.Proofs.Grammar.Inst
import FlowText.Proofs.Readable

/-!
# Canonical texts are texts of the grammar

Each canonical text of a readable value spells tokens that the grammar reads as that value. The
proofs follow the writers piece by piece; a piece is left at a blank, a comma or a parenthesis,
where every name and every number ends.

* `Expr.Readable.spells`, `Cond.Readable.marks`, `Arg.Readable.spells` — the operands.
* `Operation.Readable.spells` — the operations. The reading of a text need not be the operation
  itself: an operator that is applied to its destination shows the destination only once.
* `Expr.Readable.plain` and the like — the texts stay on one line.
-/

namespace FlowText

open Token (lparen rparen comma)

/-! ### Expressions -/

/-- Without its sign, a number of the machine is in range. -/
theorem toInt_natAbs_lt (w : Int64) : w.toInt.natAbs < wordLimit := by
  have h₁ := w.toInt_lt
  have h₂ := w.le_toInt
  rw [wordLimit]
  omega

/-- **A number** is spelled by its digits, with a minus sign in front if it is negative. -/
theorem spells_signed (w : Int64) (r : Radix) :
    ∃ ts, Spells endsName (r.signed w.toInt) ts ∧ IsSigned ts w r := by
  have hs := spells_unsigned (r := r) (toInt_natAbs_lt w)
  rw [Radix.signed]
  -- the sign is a token of its own
  split
  · next h => exact ⟨_, marks_minus.append hs, .neg (by omega)⟩
  · next h => exact ⟨_, hs, .pos (by omega)⟩

/-- **A type** in front of a memory reference. -/
theorem marks_type {ty : String} (h : IsWord ty) : Marks ("*(" ++ ty ++ "*)") (typeTokens ty) := by
  have hopen : Marks "*(" [.symbol .star, lparen] := marks_star.append marks_lparen
  have hclose : Marks "*)" [.symbol .star, rparen] := marks_star.append marks_rparen
  rw [String.append_assoc]
  exact hopen.append ((spells_word h).append hclose (by decide))

/-- A base with an offset stands in parentheses behind its type. -/
theorem marks_offset {type base sep : String} {ts bs : List Token} {s : Symbol} {n : Nat}
    (ht : Marks type ts) (hb : Spells endsName base bs) (hs : Marks sep [.symbol s])
    (hsep : sep.toList.head?.any endsName = true) (hn : n < wordLimit) :
    Marks (type ++ "(" ++ base ++ sep ++ Radix.hex.unsigned n ++ ")")
      (ts ++ lparen :: (bs ++ ([.symbol s, .number n .hex] ++ [rparen]))) := by
  have hnum := (spells_unsigned (r := .hex) hn).append marks_rparen (by decide)
  have hnext : (sep ++ (Radix.hex.unsigned n ++ ")")).toList.head?.any endsName = true := by
    rw [String.toList_append]
    cases hl : sep.toList with
    | nil =>
      rw [hl] at hsep
      cases hsep
    | cons c cs =>
      rw [hl] at hsep
      exact hsep
  rw [String.append_assoc, String.append_assoc, String.append_assoc, String.append_assoc]
  exact ht.append (marks_lparen.append (hb.append (hs.append hnum) hnext))

/-- **Expressions.** The induction follows the base of a memory reference. -/
theorem Expr.Readable.spells {e : Expr} (h : e.Readable) :
    ∃ ts, Spells endsName e.text ts ∧ IsExpr ts e := by
  induction e with
  | reg name c =>
    obtain ⟨rfl, hn⟩ := h
    rw [Expr.text, String.empty_append]
    exact ⟨_, spells_register hn, .reg⟩
  | value w r c =>
    obtain rfl : c = "" := h
    rw [Expr.text, String.empty_append]
    obtain ⟨ts, hs, hw⟩ := spells_signed w r
    exact ⟨ts, hs, .value hw⟩
  | addr a c =>
    obtain ⟨rfl, ha⟩ := h
    rw [Expr.text, String.empty_append]
    exact ⟨_, spells_word ha, .addr⟩
  | mem ty base o c ih =>
    obtain ⟨rfl, hty, hbase⟩ := h
    obtain ⟨bs, hb, hbs⟩ := ih hbase
    have ht := marks_type hty
    have hn := toInt_natAbs_lt o
    rw [Expr.text, String.empty_append, memText]
    -- the three forms of an offset: none, added or taken away
    split
    · next h₀ =>
      obtain rfl : o = 0 := Int64.toInt_inj.1 h₀
      exact ⟨_, ht.append hb, .direct hbs⟩
    split
    · next h₀ h₁ =>
      refine ⟨_, ?_, .offset hbs (.plus (.pos (n := o.toInt.natAbs) (r := .hex) (by omega)))⟩
      have hs : Marks " + " [.symbol .plus] := marks_blank.append (marks_plus.append marks_blank)
      exact (marks_offset ht hb hs (by decide) hn).weaken fun _ _ => rfl
    · next h₀ h₁ =>
      refine ⟨_, ?_, .offset hbs (.minus (n := o.toInt.natAbs) (r := .hex) (by omega))⟩
      have hs : Marks " - " [.symbol .minus] := marks_blank.append (marks_minus.append marks_blank)
      exact (marks_offset ht hb hs (by decide) hn).weaken fun _ _ => rfl
  | synthetic name c => exact h.elim

/-! ### Conditions -/

/-- **A comparison** of two operands that are spelled. -/
theorem marks_simple {l r : String} {ls rs : List Token} (op : Comparison)
    (hl : Spells endsName l ls) (hr : Spells endsName r rs) :
    Marks ("(" ++ l ++ " " ++ op.symbol ++ " " ++ r ++ ")")
      (lparen :: (ls ++ .symbol op.toSymbol :: (rs ++ [rparen]))) := by
  have hop : Spells (· == ' ') op.symbol [.symbol op.toSymbol] :=
    Comparison.text_toSymbol op ▸ spells_symbol op.toSymbol
  have hrhs := marks_blank.append (hr.append marks_rparen (by decide))
  rw [String.append_assoc, String.append_assoc, String.append_assoc, String.append_assoc,
    String.append_assoc]
  exact marks_lparen.append (hl.append (marks_blank.append (hop.append hrhs (by simp)))
    (by simp [endsName, isNameChar]))

/-- **One more condition** behind a chain. -/
theorem marks_join {chain c : String} {ts us : List Token} (op : Connective)
    (hc : Marks chain ts) (hs : Marks c us) :
    Marks (chain ++ " " ++ op.symbol ++ " " ++ c) (ts ++ .symbol op.toSymbol :: us) := by
  have hop : Spells (· == ' ') op.symbol [.symbol op.toSymbol] :=
    Connective.text_toSymbol op ▸ spells_symbol op.toSymbol
  rw [String.append_assoc, String.append_assoc, String.append_assoc]
  exact hc.append (marks_blank.append (hop.append (marks_blank.append hs) (by simp)))

mutual

/-- **Conditions.** A condition ends with a parenthesis, so anything may follow it. -/
theorem Cond.Readable.marks {c : Cond} (h : c.Readable) :
    ∃ ts, Marks c.text ts ∧ IsCond ts c := by
  match c with
  | .simple lhs op rhs =>
    obtain ⟨ls, hl, hls⟩ := (h lhs (by simp [Cond.exprs])).spells
    obtain ⟨rs, hr, hrs⟩ := (h rhs (by simp [Cond.exprs])).spells
    have ho : Comparison.ofSymbol op.toSymbol.text = .ok op :=
      Comparison.text_toSymbol op ▸ Comparison.ofSymbol_symbol op
    exact ⟨_, marks_simple op hl hr, .simple hls ho hrs⟩
  | .compound chain =>
    obtain ⟨ts, hs, hts⟩ := (show chain.Readable from h).marks
    refine ⟨_, ?_, .compound hts⟩
    rw [Cond.text, String.append_assoc]
    exact marks_lparen.append (hs.append marks_rparen)

/-- The chain of a compound. -/
theorem Chain.Readable.marks {chain : Chain} (h : chain.Readable) :
    ∃ ts, Marks chain.text ts ∧ IsChain ts chain := by
  match chain with
  | .single c =>
    obtain ⟨ts, hs, hts⟩ := Cond.Readable.marks (c := c) h
    exact ⟨ts, hs, .single hts⟩
  | .join front op c =>
    have hfront : front.Readable := fun e he => h e (List.mem_append_left _ he)
    have hlast : c.Readable := fun e he => h e (List.mem_append_right _ he)
    obtain ⟨ts, hs, hts⟩ := hfront.marks
    obtain ⟨us, hu, hus⟩ := hlast.marks
    have ho : Connective.ofWord op.toSymbol.text = .ok op :=
      Connective.text_toSymbol op ▸ Connective.ofWord_symbol op
    exact ⟨_, marks_join op hs hu, .join hts rfl ho hus⟩

end

/-! ### Arguments -/

/-- **An argument** that can be read. -/
theorem Arg.Readable.spells {a : Arg} (h : a.Readable) :
    ∃ ts, Spells endsName a.text ts ∧ IsArg ts a := by
  cases a with
  | expr e =>
    obtain ⟨ts, hs, hts⟩ := Expr.Readable.spells h
    exact ⟨ts, hs, .expr hts⟩
  | cond c =>
    obtain ⟨ts, hs, hts⟩ := Cond.Readable.marks h
    exact ⟨ts, hs.weaken fun _ _ => rfl, .cond hts⟩
  | verbatim t => exact h.elim

/-- One or more arguments. -/
theorem spells_args {a : Arg} {args : List Arg} (h : ∀ b ∈ a :: args, b.Readable) :
    ∃ ts, Spells endsName (", ".intercalate ((a :: args).map Arg.text)) ts ∧
      IsArgs ts (a :: args) := by
  induction args generalizing a with
  | nil =>
    obtain ⟨ts, hs, hts⟩ := (h a List.mem_cons_self).spells
    rw [List.map_singleton, String.intercalate_singleton]
    exact ⟨ts, hs, .one hts⟩
  | cons b args ih =>
    obtain ⟨ts, hs, hts⟩ := (h a List.mem_cons_self).spells
    obtain ⟨us, hu, hus⟩ := ih fun x hx => h x (List.mem_cons_of_mem _ hx)
    have hcomma : Marks ", " [comma] := marks_comma.append marks_blank
    rw [List.map_cons, List.map_cons, String.intercalate_cons_cons, String.append_assoc]
    exact ⟨_, hs.append (hcomma.append hu) (by simp [endsName, isNameChar]), .more hts hus⟩

/-- A call behind its destination, if it has one. -/
theorem marks_call {name : String} {args : List Arg} (hn : IsWord name)
    (ha : ∀ a ∈ args, a.Readable) :
    ∃ ts, Marks (name ++ "(" ++ ", ".intercalate (args.map Arg.text) ++ ")")
      (.word name :: lparen :: (ts ++ [rparen])) ∧ IsArgList ts args := by
  cases args with
  | nil =>
    refine ⟨[], ?_, .none⟩
    have hclose : Marks "()" [lparen, rparen] := marks_lparen.append marks_rparen
    rw [List.map_nil, String.intercalate_nil, String.append_assoc, String.append_assoc]
    exact (spells_word hn).append hclose (by decide)
  | cons a args =>
    obtain ⟨ts, hs, hts⟩ := spells_args ha
    refine ⟨ts, ?_, .some hts⟩
    rw [String.append_assoc, String.append_assoc]
    exact (spells_word hn).append (marks_lparen.append (hs.append marks_rparen (by decide)))
      (by simp [endsName, isNameChar])

/-! ### Operations -/

/-- An expression that may stand in front of an equals sign is a destination. -/
theorem IsExpr.isDest {ts : List Token} {d : Expr} (h : IsExpr ts d) (hd : d.IsDestination) :
    IsDest ts d :=
  ⟨h, hd.2.1, hd.2.2⟩

/-- The equals sign with its blanks. -/
theorem marks_assign : Marks " = " [.assign] :=
  marks_blank.append (spells_assign.append marks_blank (by decide))

/-- What is assigned stands behind the destination. -/
theorem spells_assignText {p : Char → Bool} {d s : String} {ds ts : List Token}
    (hd : Spells endsName d ds) (hs : Spells p s ts) :
    Spells p (d ++ " = " ++ s) (ds ++ .assign :: ts) := by
  rw [String.append_assoc]
  exact hd.append (marks_assign.append hs) (by simp [endsName, isNameChar])

/-- A binary operation in full. -/
theorem spells_binaryText {d l r : String} {ds ls rs : List Token} (op : BinOp)
    (hd : Spells endsName d ds) (hl : Spells endsName l ls) (hr : Spells endsName r rs) :
    Spells endsName (d ++ " = " ++ l ++ " " ++ op.symbol ++ " " ++ r)
      (ds ++ .assign :: (ls ++ .symbol op.toSymbol :: rs)) := by
  have hop : Spells (· == ' ') op.symbol [.symbol op.toSymbol] :=
    (spells_binary op).weaken fun c hc => by simp_all
  have hright := marks_blank.append (hop.append (marks_blank.append hr) (by simp))
  have hsource := hl.append hright (by simp [endsName, isNameChar])
  have he : d ++ " = " ++ l ++ " " ++ op.symbol ++ " " ++ r =
      d ++ " = " ++ (l ++ (" " ++ (op.symbol ++ (" " ++ r)))) := by
    simp only [String.append_assoc]
  rw [he]
  exact spells_assignText hd hsource

/-- A binary operation that is applied to its destination. The symbol stands directly in front of
the equals sign. -/
theorem spells_updateText {d r : String} {ds rs : List Token} (op : BinOp)
    (hd : Spells endsName d ds) (hr : Spells endsName r rs) :
    Spells endsName (d ++ " " ++ op.symbol ++ "= " ++ r)
      (ds ++ .symbol op.toSymbol :: .assign :: rs) := by
  have heq : Marks "= " [.assign] := spells_assign.append marks_blank (by decide)
  have hright := marks_blank.append ((spells_binary op).append (heq.append hr) (by simp))
  rw [String.append_assoc, String.append_assoc, String.append_assoc]
  exact hd.append hright (by simp [endsName, isNameChar])

/-- A call by name is read as it is. -/
theorem spells_apply {dest : Option Expr} {name : String} {args : List Arg}
    (hd : ∀ d ∈ dest, d.IsDestination) (hn : IsWord name) (ha : ∀ a ∈ args, a.Readable) :
    ∃ ts, Spells endsName (Form.text (.apply dest name args)) ts ∧
      IsInst ts (.named dest name args) := by
  obtain ⟨ts, hs, hts⟩ := marks_call hn ha
  cases dest with
  | none =>
    refine ⟨_, ?_, .apply hts⟩
    rw [Form.text, Form.destText, String.empty_append]
    exact hs.weaken fun _ _ => rfl
  | some d =>
    obtain ⟨ds, hd', hds⟩ := (hd d rfl).1.spells
    refine ⟨_, ?_, .applyTo (hds.isDest (hd d rfl)) hts⟩
    have he : Form.text (.apply (some d) name args) =
        d.text ++ " = " ++ (name ++ "(" ++ ", ".intercalate (args.map Arg.text) ++ ")") := by
      simp only [Form.text, Form.destText, String.append_assoc]
    rw [he]
    exact (spells_assignText hd' hs).weaken fun _ _ => rfl

/-- **Operations.** The instruction that a text says respells the operation that it was written
from. -/
theorem Operation.Readable.spells {o : Operation} (h : o.Readable) :
    ∃ form ts p, o.form = .ok form ∧ Spells endsName form.text ts ∧ IsInst ts ⟨p, []⟩ ∧
      p.Respells o := by
  obtain ⟨dest, op, args, addr, notes⟩ := o
  rw [Operation.Readable] at h
  cases h with
  | ret =>
    exact ⟨_, _, _, rfl, spells_word (by decide), .ret, Operation.same_of_eq rfl rfl rfl, rfl⟩
  | goto he =>
    obtain ⟨ts, hs, hts⟩ := he.spells
    have hword : Marks "goto " [.word "goto"] :=
      (spells_word (w := "goto") (by decide)).append marks_blank (by decide)
    exact ⟨_, _, _, rfl, hword.append hs, .goto hts, Operation.same_of_eq rfl rfl rfl, rfl⟩
  | call he =>
    obtain ⟨ts, hs, hts⟩ := he.spells
    have hword : Marks "call " [.word "call"] :=
      (spells_word (w := "call") (by decide)).append marks_blank (by decide)
    exact ⟨_, _, _, rfl, hword.append hs, .call hts, Operation.same_of_eq rfl rfl rfl, rfl⟩
  | assign hd he =>
    obtain ⟨ds, hd', hds⟩ := hd.1.spells
    obtain ⟨ts, hs, hts⟩ := he.spells
    exact ⟨_, _, _, rfl, spells_assignText hd' hs, .assign (hds.isDest hd) hts,
      Operation.same_of_eq rfl rfl rfl, rfl⟩
  | @binary d l r op hd hl hr =>
    obtain ⟨ds, hd', hds⟩ := hd.1.spells
    obtain ⟨ls, hl', hls⟩ := hl.spells
    obtain ⟨rs, hr', hrs⟩ := hr.spells
    have ho : BinOp.ofSymbol? op.toSymbol.text = some op :=
      BinOp.text_toSymbol op ▸ BinOp.ofSymbol?_symbol op
    have hdd : Form.updates d (.expr d) = true := d.same_refl
    -- an operator that is applied to its destination is read with the destination on its left
    cases hu : Form.updates d (.expr l) with
    | true =>
      refine ⟨_, _, _, rfl, ?_, .update (hds.isDest hd) ho hrs, ?_, ?_⟩
      · rw [Form.text, if_pos hu]
        exact spells_updateText op hd' hr'
      · have hld : d.same l = true := Expr.same_comm d l ▸ hu
        simp [Operation.same, sameDest_refl, List.isEqv, Arg.same, hld,
          Expr.same_refl]
      · change Except.ok (Form.text (.binary d op (.expr d) (.expr r))) =
          .ok (Form.text (.binary d op (.expr l) (.expr r)))
        rw [Form.text, Form.text, if_pos hu, if_pos hdd]
    | false =>
      refine ⟨_, _, _, rfl, ?_, .binary (hds.isDest hd) hls ho hrs,
        Operation.same_of_eq rfl rfl rfl, rfl⟩
      rw [Form.text, hu]
      exact spells_binaryText op hd' hl' hr'
  | named hd hn ha =>
    obtain ⟨ts, hs, hts⟩ := spells_apply hd hn ha
    exact ⟨_, _, _, rfl, hs, hts, Operation.same_of_eq rfl rfl rfl, rfl⟩

/-! ### Plain texts

The canonical text of a readable value has no control characters: names, digits and symbols have
none, and neither has what stands between them. -/

/-- Digits are plain. -/
theorem plain_unsigned (r : Radix) (n : Nat) : Plain (r.unsigned n) := by
  intro c hc
  rw [Radix.toList_unsigned, List.mem_append] at hc
  rcases hc with hc | hc
  · cases r with
    | hex =>
      have hmark : Plain (Radix.mark .hex) := by decide
      exact hmark c hc
    | dec => cases hc
  · have hd := isNameChar_iff.1 (isNameChar_of_isDigit (Radix.isDigit_of_mem_toDigits hc))
    omega

/-- So are digits with a sign. -/
theorem plain_signed (r : Radix) (z : Int) : Plain (r.signed z) := by
  rw [Radix.signed]
  split
  · exact Plain.append (by decide) (plain_unsigned r _)
  · exact plain_unsigned r _

/-- **Expressions** that can be read are plain. -/
theorem Expr.Readable.plain {e : Expr} (h : e.Readable) : Plain e.text := by
  induction e with
  | reg name c =>
    obtain ⟨rfl, hn⟩ := h
    rw [Expr.text, String.empty_append]
    exact Plain.append (by decide) (Plain.of_isNameChar hn.2)
  | value w r c =>
    obtain rfl : c = "" := h
    rw [Expr.text, String.empty_append]
    exact plain_signed r _
  | addr a c =>
    obtain ⟨rfl, ha⟩ := h
    rw [Expr.text, String.empty_append]
    exact Plain.of_isNameChar ha.2
  | mem ty base o c ih =>
    obtain ⟨rfl, hty, hbase⟩ := h
    have htype : Plain ("*(" ++ ty ++ "*)") :=
      (Plain.append (by decide) (Plain.of_isNameChar hty.2)).append (by decide)
    have hopen := (htype.append (by decide : Plain "(")).append (ih hbase)
    rw [Expr.text, String.empty_append, memText]
    split
    · exact htype.append (ih hbase)
    split
    · exact ((hopen.append (by decide)).append (plain_unsigned .hex _)).append (by decide)
    · exact ((hopen.append (by decide)).append (plain_unsigned .hex _)).append (by decide)
  | synthetic name c => exact h.elim

theorem Comparison.plain_symbol (op : Comparison) : Plain op.symbol := by
  cases op <;> decide

theorem Connective.plain_symbol (l : Connective) : Plain l.symbol := by
  cases l <;> decide

theorem BinOp.plain_symbol (op : BinOp) : Plain op.symbol := by
  cases op <;> decide

mutual

/-- **Conditions** that can be read are plain. -/
theorem Cond.Readable.plain {c : Cond} (h : c.Readable) : Plain c.text := by
  match c with
  | .simple lhs op rhs =>
    have hl := (h lhs (by simp [Cond.exprs])).plain
    have hr := (h rhs (by simp [Cond.exprs])).plain
    have hleft := (Plain.append (by decide : Plain "(") hl).append (by decide : Plain " ")
    have hop := (hleft.append op.plain_symbol).append (by decide : Plain " ")
    exact (hop.append hr).append (by decide)
  | .compound chain =>
    exact (Plain.append (by decide) ((show chain.Readable from h).plain)).append (by decide)

theorem Chain.Readable.plain {chain : Chain} (h : chain.Readable) : Plain chain.text := by
  match chain with
  | .single c => exact Cond.Readable.plain (c := c) h
  | .join front op c =>
    have hfront : front.Readable := fun e he => h e (List.mem_append_left _ he)
    have hlast : c.Readable := fun e he => h e (List.mem_append_right _ he)
    have hleft := (hfront.plain.append (by decide : Plain " ")).append op.plain_symbol
    exact (hleft.append (by decide : Plain " ")).append hlast.plain

end

/-- **Arguments** that can be read are plain. -/
theorem Arg.Readable.plain {a : Arg} (h : a.Readable) : Plain a.text := by
  cases a with
  | expr e => exact Expr.Readable.plain h
  | cond c => exact Cond.Readable.plain h
  | verbatim t => exact h.elim

/-- Plain texts with a plain text between them are plain. -/
theorem plain_intercalate {sep : String} {texts : List String} (hs : Plain sep)
    (h : ∀ t ∈ texts, Plain t) : Plain (sep.intercalate texts) := by
  induction texts with
  | nil =>
    rw [String.intercalate_nil]
    decide
  | cons t texts ih =>
    have ht := h t List.mem_cons_self
    have htail := ih fun u hu => h u (List.mem_cons_of_mem _ hu)
    cases texts with
    | nil =>
      rw [String.intercalate_singleton]
      exact ht
    | cons u texts =>
      rw [String.intercalate_cons_cons]
      exact (ht.append hs).append htail

/-- **Instructions** that can be read are plain. -/
theorem Operation.Readable.plain {o : Operation} (h : o.Readable) {form : Form}
    (hf : o.form = .ok form) : Plain form.text := by
  obtain ⟨dest, op, args, addr, notes⟩ := o
  rw [Operation.Readable] at h
  cases h with
  | ret =>
    cases hf
    decide
  | goto he =>
    cases hf
    exact Plain.append (by decide) he.plain
  | call he =>
    cases hf
    exact Plain.append (by decide) he.plain
  | assign hd he =>
    cases hf
    exact (hd.1.plain.append (by decide)).append he.plain
  | @binary d l r op hd hl hr =>
    cases hf
    rw [Form.text]
    split
    · have hleft := (hd.1.plain.append (by decide : Plain " ")).append op.plain_symbol
      exact (hleft.append (by decide)).append hr.plain
    · have hleft := (hd.1.plain.append (by decide : Plain " = ")).append hl.plain
      have hop := (hleft.append (by decide : Plain " ")).append op.plain_symbol
      exact (hop.append (by decide)).append hr.plain
  | @named dest name args hd hn ha =>
    cases hf
    have hdest : Plain (Form.destText dest) := by
      cases dest with
      | none => decide
      | some d => exact (hd d rfl).1.plain.append (by decide)
    have hargs : Plain (", ".intercalate (args.map Arg.text)) := by
      refine plain_intercalate (by decide) fun t ht => ?_
      obtain ⟨a, hm, rfl⟩ := List.mem_map.1 ht
      exact (ha a hm).plain
    have hleft := (hdest.append (Plain.of_isNameChar hn.2)).append (by decide : Plain "(")
    exact (hleft.append hargs).append (by decide)

end FlowText
