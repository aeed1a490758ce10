import FlowText.Proofs.ReadBack

/-!
# Opcodes and their tags

A tag stands for at most one opcode, the one that it is the tag of (`Opcode.ofTag_eq_ok_iff`). Every
opcode is read off its tag again but for some names: those that are the tag of another opcode, and
those that do not start like a name (`Opcode.HasOwnTag`). The reader of instructions takes any word
in front of a parenthesis for a name, so these are the names that its opcodes must not have
(`tags_name_opcodes`).
-/

namespace FlowText

theorem BinOp.symbol_of_ofSymbol? {text : String} {op : BinOp} (h : ofSymbol? text = some op) :
    op.symbol = text := by
  unfold ofSymbol? at h
  split at h <;> cases h <;> rfl

namespace Opcode

/-- The opcodes with a tag of their own that reads like a name. -/
def fixed : List Opcode := [ret, goto, call, assign, literal, synthetic]

/-- **Own tags.** A name is the tag of a named operation if it starts like one and is not that of a
fixed opcode. -/
def HasOwnTag : Opcode → Prop
  | named name => isName name = true ∧ ∀ op ∈ fixed, op.tag ≠ name
  | _ => True

/-! ### What a tag stands for -/

theorem hasOwnTag_of_mem_fixed {op : Opcode} (h : op ∈ fixed) : op.HasOwnTag := by
  cases op with
  | named name => simp [fixed] at h
  | _ => trivial

theorem isName_fixed : ∀ op ∈ fixed, isName op.tag = true := by
  decide

theorem ofTag_symbol (op : BinOp) : ofTag op.symbol = .ok (binary op) := by
  cases op <;> rfl

/-- Behind the fixed tags, the first character decides what a tag may stand for. -/
theorem ofTag_of_ne_fixed {t : String} (hfixed : ∀ op ∈ fixed, op.tag ≠ t) (hne : t ≠ "") :
    ofTag t = if isName t then .ok (named t)
      else match BinOp.ofSymbol? t with
        | some op => .ok (binary op)
        | none => .error (.unknownTag t) := by
  simp only [fixed, List.forall_mem_cons] at hfixed
  obtain ⟨hret, hgoto, hcall, hassign, hliteral, hsynthetic, -⟩ := hfixed
  unfold ofTag
  split
  · exact absurd rfl hret
  · exact absurd rfl hgoto
  · exact absurd rfl hcall
  · exact absurd rfl hassign
  · exact absurd rfl hliteral
  · exact absurd rfl hsynthetic
  · exact absurd rfl hne
  · rfl

theorem ofTag_tag {op : Opcode} (h : op.HasOwnTag) : ofTag op.tag = .ok op := by
  cases op with
  | binary op => exact ofTag_symbol op
  | named name =>
    obtain ⟨hname, hfixed⟩ := h
    have hne : name ≠ "" := by
      rintro rfl
      cases hname
    rw [tag, ofTag_of_ne_fixed hfixed hne, if_pos hname]
  | _ => rfl

/-- **A tag stands for the opcode that it is the tag of.** The fixed tags come first, so no name is
one. -/
theorem ofTag_eq_ok_iff {t : String} {op : Opcode} :
    ofTag t = .ok op ↔ op.tag = t ∧ op.HasOwnTag := by
  refine ⟨fun h => ?_, fun ⟨ht, hop⟩ => ht ▸ ofTag_tag hop⟩
  by_cases hfixed : ∃ op' ∈ fixed, op'.tag = t
  · obtain ⟨op', hop', rfl⟩ := hfixed
    have hown := hasOwnTag_of_mem_fixed hop'
    rw [ofTag_tag hown] at h
    cases h
    exact ⟨rfl, hown⟩
  · have hfixed' : ∀ op' ∈ fixed, op'.tag ≠ t := fun op' hop' ht => hfixed ⟨op', hop', ht⟩
    have hne : t ≠ "" := by
      rintro rfl
      cases h
    rw [ofTag_of_ne_fixed hfixed' hne] at h
    split at h
    · next hname =>
      cases h
      exact ⟨rfl, hname, hfixed'⟩
    · split at h
      · next hsymbol =>
        cases h
        exact ⟨BinOp.symbol_of_ofSymbol? hsymbol, trivial⟩
      · cases h

/-- A word that does not start like a name is no operator, either. -/
theorem ofTag_of_isWord {name : String} (hword : IsWord name) (hname : isName name = false) :
    ofTag name = .error (.unknownTag name) := by
  have hfixed : ∀ op ∈ fixed, op.tag ≠ name := by
    rintro op hop rfl
    exact Bool.false_ne_true (hname.symm.trans (isName_fixed op hop))
  have hne : name ≠ "" := by
    rintro rfl
    cases hword.1
  rw [ofTag_of_ne_fixed hfixed hne, if_neg (by simp [hname])]
  cases hsymbol : BinOp.ofSymbol? name with
  | none => rfl
  | some op =>
    obtain rfl := BinOp.symbol_of_ofSymbol? hsymbol
    exact absurd hword (by cases op <;> decide)

/-- Words start like names but for the two marks of addresses. -/
theorem isName_eq_false_iff {name : String} (hword : IsWord name) :
    isName name = false ↔ name.toList.head? = some '.' ∨ name.toList.head? = some '@' := by
  obtain ⟨hstart, -⟩ := hword
  rw [isName]
  cases hn : name.toList with
  | nil =>
    rw [hn] at hstart
    cases hstart
  | cons c cs =>
    have hc : isNameStart c = true := by simpa [hn] using hstart
    simp only [List.head?_cons, Option.any_some, Option.some.injEq]
    constructor
    · intro hletter
      simpa [isNameStart, Bool.or_assoc, Bool.or_eq_false_iff.1 hletter] using hc
    · rintro (rfl | rfl) <;> rfl

end Opcode

/-! ### Opcodes that are read -/

/-- **Calls by name.** The tokens are those of a call, whatever it is given. -/
inductive IsCall (name : String) : List Token → Prop where
  | plain (ts : List Token) : IsCall name (.word name :: .lparen :: ts)
  | dest {ds : List Token} {d : Expr} (hd : IsDest ds d) (ts : List Token) :
    IsCall name (ds ++ .assign :: .word name :: .lparen :: ts)

/-- The text is that of a call by name. -/
def CallsByName (text name : String) : Prop := ∃ ts, lex text.toList = .ok ts ∧ IsCall name ts

/-- **Only a call is a named operation**, and every call is one: the name is not looked at. -/
theorem IsInst.op_eq_named_iff {ts : List Token} {i : Inst} {name : String} (h : IsInst ts i) :
    i.op = .named name ↔ IsCall name ts := by
  constructor
  · intro hop
    cases h with
    | apply h =>
      cases hop
      exact .plain _
    | applyTo hd h =>
      cases hop
      exact .dest hd _
    | _ => cases hop
  · intro hcall
    have happ : ∃ dest us, application dest name us = .ok i := by
      have hi := instruction_of_isInst h
      cases hcall with
      | plain us => exact ⟨none, us, by rwa [instruction] at hi⟩
      | @dest ds d hd us =>
        rw [instruction_append hd (by simp : Token.assign ≠ .lparen)] at hi
        exact ⟨some d, us, hi⟩
    obtain ⟨dest, us, happ⟩ := happ
    obtain ⟨-, args, -, -, rfl⟩ := exists_of_application happ
    rfl

theorem Inst.op_eq_named_iff {text : String} {i : Inst} {name : String} (h : ofText text = .ok i) :
    i.op = .named name ↔ CallsByName text name := by
  obtain ⟨ts, hts, hi⟩ := Inst.ofText_eq_ok_iff.1 h
  rw [hi.op_eq_named_iff]
  refine ⟨fun hcall => ⟨ts, hts, hcall⟩, fun ⟨us, hus, hcall⟩ => ?_⟩
  obtain rfl := Except.ok.inj (hts.symm.trans hus)
  exact hcall

/-- The name of a call that is read is a word. -/
theorem Inst.isWord_of_named {text : String} {i : Inst} {name : String} (h : ofText text = .ok i)
    (hop : i.op = .named name) : IsWord name := by
  have hshape : ReadableShape i.op i.dest i.args := (readable_of_ofText h).1
  rw [hop] at hshape
  cases hshape with
  | named hd hn ha => exact hn

/-- An opcode that is read has its own tag, unless a call is to a name with the tag of another
opcode or to a name that is marked like an address. -/
theorem Inst.hasOwnTag_iff {text : String} {i : Inst} (h : ofText text = .ok i) :
    i.op.HasOwnTag ↔ ∀ name, i.op = .named name → (∀ op ∈ Opcode.fixed, op.tag ≠ name) ∧
      name.toList.head? ≠ some '.' ∧ name.toList.head? ≠ some '@' := by
  cases hop : i.op with
  | named name =>
    have hname := Opcode.isName_eq_false_iff (isWord_of_named h hop)
    simp only [Opcode.HasOwnTag, Opcode.named.injEq, forall_eq', and_comm, ne_eq, ← not_or, ← hname,
      Bool.not_eq_false]
  | _ => exact ⟨fun _ => nofun, fun _ => trivial⟩

/-- **Tags and opcodes.** A tag stands for the opcode that it is the tag of, if one has it for its
own. An opcode that is read off a text is read off its tag again if and only if the text is no call
by the tag of a fixed opcode, nor by a name with a mark in front: the one tag stands for the fixed
opcode, the other one for nothing. -/
theorem tags_name_opcodes :
    (∀ t op, Opcode.ofTag t = .ok op ↔ op.tag = t ∧ op.HasOwnTag) ∧
    ∀ text i, Inst.ofText text = .ok i →
      (∀ name, i.op = .named name ↔ CallsByName text name) ∧
      (Opcode.ofTag i.op.tag = .ok i.op ↔
        ∀ name, CallsByName text name → (∀ op ∈ Opcode.fixed, op.tag ≠ name) ∧
          name.toList.head? ≠ some '.' ∧ name.toList.head? ≠ some '@') ∧
      ∀ name, CallsByName text name →
        (∀ op ∈ Opcode.fixed, op.tag = name → Opcode.ofTag i.op.tag = .ok op ∧ op ≠ i.op) ∧
        (name.toList.head? = some '.' ∨ name.toList.head? = some '@' →
          Opcode.ofTag i.op.tag = .error (.unknownTag name)) := by
  refine ⟨fun t op => Opcode.ofTag_eq_ok_iff, fun text i h => ?_⟩
  have hcall : ∀ name, i.op = .named name ↔ CallsByName text name :=
    fun name => Inst.op_eq_named_iff h
  refine ⟨hcall, ?_, fun name hname => ?_⟩
  · simp only [Opcode.ofTag_eq_ok_iff, true_and, Inst.hasOwnTag_iff h, hcall]
  · have hop := (hcall name).2 hname
    rw [hop]
    refine ⟨fun op hfixed htag => ⟨?_, ?_⟩, fun hmark => ?_⟩
    · rw [Opcode.tag, ← htag]
      exact Opcode.ofTag_tag (Opcode.hasOwnTag_of_mem_fixed hfixed)
    · rintro rfl
      simp [Opcode.fixed] at hfixed
    · have hword := Inst.isWord_of_named h hop
      exact Opcode.ofTag_of_isWord hword ((Opcode.isName_eq_false_iff hword).2 hmark)

/-- A call by a name of its own, to a destination. -/
theorem tag_of_bswap_kept :
    Inst.ofText "$x = bswap($y)" = .ok (.named (some (.reg "x")) "bswap" [.expr (.reg "y")]) ∧
      Opcode.ofTag "bswap" = .ok (.named "bswap") := by
  have hread : Inst.ofText "$x = bswap($y)" =
      .ok (.named (some (.reg "x")) "bswap" [.expr (.reg "y")]) := by decide +kernel
  obtain ⟨hcall, hkept, -⟩ := tags_name_opcodes.2 _ _ hread
  refine ⟨hread, hkept.2 fun name hname => ?_⟩
  obtain rfl := Opcode.named.inj ((hcall name).2 hname)
  decide

/-- An opcode is not always read off its tag again: the name of a call may be the tag of another
opcode, or no tag at all. -/
theorem opcode_not_always_kept :
    ¬ ((∀ t op, Opcode.ofTag t = .ok op → op.tag = t) ∧
      ∀ text i, Inst.ofText text = .ok i → Opcode.ofTag i.op.tag = .ok i.op) := by
  rintro ⟨-, hkept⟩
  have hread : Inst.ofText "return()" = .ok (.named none "return" []) := by decide +kernel
  cases hkept _ _ hread

end FlowText
