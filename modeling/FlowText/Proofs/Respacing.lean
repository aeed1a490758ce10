import FlowText.Inst.Read
import FlowText.Proofs.Lexing

/-!
# Respacing

Blanks separate tokens and do nothing else. So the blanks between two parts of a text can be
exchanged for others, in one place (`Respaced.gap`) or in many, and no reader sees the difference
(`SameReading`).
-/

namespace FlowText

/-- **Respaced.** Some gaps of the first text, each between two parts of it, are other ones in the
second text. No gap is empty in either. -/
inductive Respaced : List Char → List Char → Prop where
  | same (s : List Char) : Respaced s s
  | gap {g h s t : List Char} (front : List Char) (hg : IsGap g) (hg₀ : g ≠ [])
    (hh : IsGap h) (hh₀ : h ≠ [])
    (hst : Respaced s t) : Respaced (front ++ g ++ s) (front ++ h ++ t)

/-- The induction is on the gaps. -/
theorem Respaced.lex_eq {s t : List Char} (h : Respaced s t) : lex s = lex t := by
  induction h with
  | same s => rfl
  | gap front hg hg₀ hh hh₀ _ ih => rw [lex_append_gap hg hg₀, lex_append_gap hh hh₀, ih]

/-- **Same reading.** The texts have the same tokens, and all readers find the same in them, be it a
value or the cause of an error. -/
structure SameReading (s t : String) : Prop where
  tokens : lex s.toList = lex t.toList
  expr : Expr.ofText s = Expr.ofText t
  cond : Cond.ofText s = Cond.ofText t
  inst : Inst.ofText s = Inst.ofText t

/-- A reader asks for the tokens only. -/
theorem readText_congr {α : Type} {read : List Token → Except GrammarError α} {s t : String}
    (h : lex s.toList = lex t.toList) : readText read s = readText read t := by
  rw [readText, readText, h]

theorem sameReading_of_lex {s t : String} (h : lex s.toList = lex t.toList) : SameReading s t :=
  ⟨h, readText_congr h, readText_congr h, readText_congr h⟩

/-- The tokens on both sides of a gap, if there are any. -/
theorem lex_gap_eq_ok_iff {s g t : List Char} {ts : List Token} (hg : IsGap g) (hne : g ≠ []) :
    lex (s ++ g ++ t) = .ok ts ↔ ∃ us vs, lex s = .ok us ∧ lex t = .ok vs ∧ ts = us ++ vs := by
  rw [lex_append_gap hg hne]
  constructor
  · intro h
    obtain ⟨us, hs, h⟩ := ok_of_bind h
    obtain ⟨vs, ht, rfl⟩ := ok_of_map h
    exact ⟨us, vs, hs, ht, rfl⟩
  · rintro ⟨us, vs, hs, ht, rfl⟩
    rw [hs, ht]
    rfl

/-- **Respacing keeps the reading.** A text with a gap in it has tokens if and only if both of its
parts have, and then it has theirs in a row. So another gap in its place, or others in many places,
change no token, and nothing of what the readers find. -/
theorem respacing_keeps_reading :
    (∀ s w t : String, IsGap w.toList → w ≠ "" → ∀ ts : List Token,
      lex (s ++ w ++ t).toList = .ok ts ↔
        ∃ us vs, lex s.toList = .ok us ∧ lex t.toList = .ok vs ∧ ts = us ++ vs) ∧
    (∀ s v w t : String, IsGap v.toList → v ≠ "" → IsGap w.toList → w ≠ "" →
      SameReading (s ++ v ++ t) (s ++ w ++ t)) ∧
    ∀ s t : String, Respaced s.toList t.toList → SameReading s t := by
  have hne : ∀ {w : String}, w ≠ "" → w.toList ≠ [] := fun hw h => hw (String.toList_inj.1 h)
  refine ⟨fun s w t hw hw₀ ts => ?_,
    fun s v w t hv hv₀ hw hw₀ => ?_, fun s t h => sameReading_of_lex h.lex_eq⟩
  · rw [String.toList_append, String.toList_append]
    exact lex_gap_eq_ok_iff hw (hne hw₀)
  · refine sameReading_of_lex ?_
    rw [String.toList_append, String.toList_append, String.toList_append, String.toList_append]
    exact (Respaced.gap _ hv (hne hv₀) hw (hne hw₀) (.same _)).lex_eq

/-- Tokens that look ahead of themselves at a gap: a number and an angle bracket in front of an
equals sign. Two gaps at once, one of them a wide blank, make no difference to an assignment. -/
theorem shift_reads_alike :
    lex ("0x1f >" ++ " " ++ "= $r0").toList =
      .ok ([.number 31 .hex, .symbol .gt] ++ [.assign, .reg "r0"]) ∧
    SameReading ("$x >>=" ++ " " ++ "0x2") ("$x >>=" ++ "\r\n" ++ "0x2") ∧
    SameReading "$x  =\t$y" "$x\u3000= $y" := by
  obtain ⟨hlex, hgap, hmany⟩ := respacing_keeps_reading
  refine ⟨(hlex _ _ _ (by decide) (by decide) _).2 ⟨_, _, by cbv, by cbv, rfl⟩,
    hgap _ _ _ _ (by decide) (by decide) (by decide) (by decide), hmany _ _ ?_⟩
  exact .gap "$x".toList (g := [' ', ' ']) (h := ['\u3000']) (by decide) (by decide)
    (by decide) (by decide)
    (.gap ['='] (g := ['\t']) (h := [' ']) (by decide) (by decide) (by decide)
      (by decide) (.same _))

end FlowText
