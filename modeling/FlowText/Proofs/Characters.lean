import FlowText.Text.Blank
import FlowText.Token
import Mathlib

/-!
# Classes of characters by code point

The classes that the lexer asks for, as ranges of code points. Which class lies inside or outside
which other one is then arithmetic.

* `IsWord`, `IsRegName` — what the lexer takes for a word and for the name of a register.
* `IsGap` — blanks only; `exists_dropBlanks` cuts a text behind those at its start.
* `Plain` — a text without control characters; it stays on one line.
-/

namespace FlowText

theorem eq_iff_toNat {c d : Char} : c = d ↔ c.toNat = d.toNat := Char.toNat_inj.symm

theorem isAlpha_iff {c : Char} :
    c.isAlpha = true ↔ 65 ≤ c.toNat ∧ c.toNat ≤ 90 ∨ 97 ≤ c.toNat ∧ c.toNat ≤ 122 := by
  simp [Char.isAlpha, Char.isUpper, Char.isLower, UInt32.le_iff_toNat_le]

theorem isDigit_iff {c : Char} : c.isDigit = true ↔ 48 ≤ c.toNat ∧ c.toNat ≤ 57 := by
  simp [Char.isDigit, UInt32.le_iff_toNat_le]

theorem isNameStart_iff {c : Char} :
    isNameStart c = true ↔
      (65 ≤ c.toNat ∧ c.toNat ≤ 90 ∨ 97 ≤ c.toNat ∧ c.toNat ≤ 122) ∨
        c.toNat = 95 ∨ c.toNat = 46 ∨ c.toNat = 64 := by
  simp [isNameStart, isAlpha_iff, eq_iff_toNat, or_assoc]

theorem isNameChar_iff {c : Char} :
    isNameChar c = true ↔
      (65 ≤ c.toNat ∧ c.toNat ≤ 90 ∨ 97 ≤ c.toNat ∧ c.toNat ≤ 122) ∨
        (48 ≤ c.toNat ∧ c.toNat ≤ 57) ∨ c.toNat = 95 ∨ c.toNat = 46 ∨ c.toNat = 64 := by
  simp [isNameChar, Char.isAlphanum, isAlpha_iff, isDigit_iff, eq_iff_toNat, or_assoc]

/-- A digit of either base is a decimal digit or one of the first letters. -/
theorem code_of_isDigit {r : Radix} {c : Char} (h : r.isDigit c = true) :
    48 ≤ c.toNat ∧ c.toNat ≤ 57 ∨ 97 ≤ c.toNat ∧ c.toNat ≤ 102 ∨
      65 ≤ c.toNat ∧ c.toNat ≤ 70 := by
  simp only [Radix.isDigit, Radix.digit?] at h
  split at h
  · next hc => exact .inl hc
  split at h
  · next hc => exact .inr (.inl hc)
  split at h
  · next hc => exact .inr (.inr hc)
  · cases h

theorem isNameChar_of_isNameStart {c : Char} (h : isNameStart c = true) : isNameChar c = true := by
  rw [isNameStart_iff] at h
  rw [isNameChar_iff]
  omega

theorem isNameChar_of_isDigit {r : Radix} {c : Char} (h : r.isDigit c = true) :
    isNameChar c = true := by
  have hc := code_of_isDigit h
  rw [isNameChar_iff]
  omega

/-- Everything up to the last control character of the first block that is a blank, and the blanks
beyond it, lie outside the characters that tokens are made of. -/
theorem isBlank_iff {c : Char} :
    isBlank c = true ↔ 9 ≤ c.toNat ∧ c.toNat ≤ 13 ∨ c.toNat = 32 ∨ c.toNat = 133 ∨
      c.toNat = 160 ∨ c.toNat = 5760 ∨ 8192 ≤ c.toNat ∧ c.toNat ≤ 8202 ∨ c.toNat = 8232 ∨
      c.toNat = 8233 ∨ c.toNat = 8239 ∨ c.toNat = 8287 ∨ c.toNat = 12288 := by
  simp [isBlank, or_assoc]

theorem isBlank_eq_false {c : Char} (h : 33 ≤ c.toNat) (h' : c.toNat ≤ 126) :
    isBlank c = false := by
  rw [← Bool.not_eq_true, isBlank_iff]
  omega

/-- A blank goes on with no name. -/
theorem isNameChar_eq_false {c : Char} (h : isBlank c = true) : isNameChar c = false := by
  rw [isBlank_iff] at h
  rw [← Bool.not_eq_true, isNameChar_iff]
  omega

/-! ### Gaps -/

/-- Blanks, or nothing. -/
def IsGap (cs : List Char) : Prop := ∀ c ∈ cs, isBlank c = true

instance (cs : List Char) : Decidable (IsGap cs) := List.decidableBAll _ cs

theorem IsGap.nil : IsGap [] := fun _ h => absurd h List.not_mem_nil

theorem IsGap.append {g h : List Char} (hg : IsGap g) (hh : IsGap h) : IsGap (g ++ h) :=
  fun c hc => (List.mem_append.1 hc).elim (hg c) (hh c)

theorem IsGap.dropBlanks_append {g : List Char} (h : IsGap g) (cs : List Char) :
    dropBlanks (g ++ cs) = dropBlanks cs :=
  List.dropWhile_append_of_pos h

theorem IsGap.dropBlanks_eq {g : List Char} (h : IsGap g) : dropBlanks g = [] :=
  List.dropWhile_eq_nil_iff.2 h

theorem dropBlanks_cons {c : Char} (h : isBlank c = false) (cs : List Char) :
    dropBlanks (c :: cs) = c :: cs := by
  rw [dropBlanks, List.dropWhile_cons, if_neg (by simp [h])]

/-- The blanks at the start, and the text behind them. -/
theorem exists_dropBlanks (cs : List Char) : ∃ blanks, cs = blanks ++ dropBlanks cs ∧
    IsGap blanks ∧ ∀ c ∈ (dropBlanks cs).head?, isBlank c = false := by
  refine ⟨cs.takeWhile isBlank, List.takeWhile_append_dropWhile.symm,
    fun c hc => List.mem_takeWhile_imp hc, fun c hc => ?_⟩
  have hstop := List.head?_dropWhile_not isBlank cs
  rw [← dropBlanks, Option.mem_def.1 hc] at hstop
  exact hstop

/-! ### Names -/

/-- The name of a register: any characters of names, at least one. -/
def IsRegName (name : String) : Prop :=
  name ≠ "" ∧ ∀ c ∈ name.toList, isNameChar c = true

/-- A word: characters of names, the first of which can start one. -/
def IsWord (name : String) : Prop :=
  name.toList.head?.any isNameStart = true ∧ ∀ c ∈ name.toList, isNameChar c = true

-- the instance is named, as there is another one that goes through all characters there are
instance (name : String) : Decidable (IsRegName name) :=
  @instDecidableAnd _ _ _ (List.decidableBAll _ name.toList)

instance (name : String) : Decidable (IsWord name) :=
  @instDecidableAnd _ _ _ (List.decidableBAll _ name.toList)

/-! ### Plain texts -/

/-- The text has no control characters of the first block, so no end of a line. -/
def Plain (s : String) : Prop := ∀ c ∈ s.toList, 32 ≤ c.toNat

instance (s : String) : Decidable (Plain s) := List.decidableBAll _ s.toList

theorem Plain.append {s t : String} (hs : Plain s) (ht : Plain t) : Plain (s ++ t) := by
  intro c hc
  rw [String.toList_append, List.mem_append] at hc
  exact hc.elim (hs c) (ht c)

theorem Plain.of_isNameChar {s : String} (h : ∀ c ∈ s.toList, isNameChar c = true) : Plain s := by
  intro c hc
  have hn := isNameChar_iff.1 (h c hc)
  omega

end FlowText
