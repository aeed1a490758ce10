import FlowText.Proofs.ReadBack

/-!
# What was read stays as it is written

A text that a reader accepts may be spelled in many ways; the canonical text of what was read is one
that the same reader accepts, and nothing changes any more from there on (`accepted_texts_settle`).
The readers build readable values only, so this is the round trip of those.
-/

namespace FlowText

/-- An operation that has a form keeps the shape rules. -/
theorem Operation.validate_of_form {o : Operation} {form : Form} (h : o.form = .ok form) :
    o.validate = .ok () := by
  rw [validate, h]
  rfl

/-- **Settled.** The canonical text of an expression or condition that was read is read as that
expression or condition. An instruction that was read keeps the shape rules, so it has a canonical
text; this is read as the same instruction, whose canonical text it is again. -/
theorem accepted_texts_settle (t : String) :
    (∀ e, Expr.ofText t = .ok e → Expr.ofText e.text = .ok e) ∧
    (∀ c, Cond.ofText t = .ok c → Cond.ofText c.text = .ok c) ∧
    (∀ i, Inst.ofText t = .ok i → i.validate = .ok () ∧
      ∃ s j, i.canonical = .ok s ∧ Inst.ofText s = .ok j ∧ j.same i = true ∧
        j.canonical = .ok s) := by
  refine ⟨fun e h => (Expr.readable_of_ofText h).ofText,
    fun c h => (Cond.readable_of_ofText h).ofText, fun i h => ?_⟩
  obtain ⟨hreadable, horigins⟩ := readable_of_ofText h
  obtain ⟨form, p, hform, -⟩ := hreadable.ofText
  obtain ⟨s, j, hs, hj, hsame, -, hs'⟩ := hreadable.settles horigins
  exact ⟨Operation.validate_of_form hform, s, j, hs, hj, hsame, hs'⟩

/-- A negative offset behind a plus sign, the word for a connective, a compound of one condition,
and an operator whose first operand is the destination in another radix. -/
theorem loose_texts_settle :
    (∃ e, Expr.ofText "* (u8*)( *(.x*)$0+-5 )" = .ok e ∧ Expr.ofText e.text = .ok e) ∧
    (∃ c, Cond.ofText "(($r1<1)AND((1>=$r2)))" = .ok c ∧ Cond.ofText c.text = .ok c) ∧
    (∃ i, Inst.ofText "0x1=1+02" = .ok i ∧ i.validate = .ok () ∧
      ∃ s j, i.canonical = .ok s ∧ Inst.ofText s = .ok j ∧ j.same i = true ∧
        j.canonical = .ok s) := by
  have hexpr : Expr.ofText "* (u8*)( *(.x*)$0+-5 )" =
      .ok (.mem "u8" (.mem ".x" (.reg "0") 0) (-5)) := by decide +kernel
  have hcond : Cond.ofText "(($r1<1)AND((1>=$r2)))" =
      .ok (.compound (.pair (.simple (.reg "r1") .lt (.value 1 .dec)) .and
        (.compound (.single (.simple (.value 1 .dec) .ge (.reg "r2")))))) := by decide +kernel
  have hinst : Inst.ofText "0x1=1+02" =
      .ok (.binary (.value 1) .add [.value 1 .dec, .value 2 .dec]) := by decide +kernel
  exact ⟨⟨_, hexpr, (accepted_texts_settle _).1 _ hexpr⟩,
    ⟨_, hcond, (accepted_texts_settle _).2.1 _ hcond⟩,
    ⟨_, hinst, (accepted_texts_settle _).2.2 _ hinst⟩⟩

end FlowText
