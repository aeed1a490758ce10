import FlowText.Text.Numeral
import Mathlib

/-!
# Numerals read back

The written form of a number consists of digits of its base, and they denote the number
(`Radix.value_toDigits`). A signed word is the only one with its value (`word?_eq_some_iff`).
-/

namespace FlowText

namespace Radix

theorem one_lt_base (r : Radix) : 1 < r.base := by
  cases r <;> decide

/-- The digit written for a value below the base denotes that value. -/
theorem digit?_digitChar {r : Radix} {d : Nat} (h : d < r.base) :
    r.digit? (Nat.digitChar d) = some d := by
  cases r with
  | hex =>
    have hall : ∀ d < 16, hex.digit? (Nat.digitChar d) = some d := by decide
    exact hall d h
  | dec =>
    have hall : ∀ d < 10, dec.digit? (Nat.digitChar d) = some d := by decide
    exact hall d h

theorem isDigit_digitChar {r : Radix} {d : Nat} (h : d < r.base) :
    r.isDigit (Nat.digitChar d) = true := by
  rw [isDigit, digit?_digitChar h]
  rfl

/-- One more digit at the end shifts the others by one place. -/
theorem value_concat (r : Radix) (ds : List Char) (c : Char) :
    r.value (ds ++ [c]) = r.value ds * r.base + (r.digit? c).getD 0 := by
  simp [value]

/-- **Value of the written form.** The induction follows the digits from the last one. -/
theorem value_toDigits (r : Radix) (n : Nat) : r.value (Nat.toDigits r.base n) = n := by
  induction n using Nat.strongRecOn with
  | _ n ih =>
    have hb := one_lt_base r
    by_cases h : n < r.base
    · rw [Nat.toDigits_of_lt_base h]
      simp [value, digit?_digitChar h]
    · have hle : r.base ≤ n := Nat.le_of_not_lt h
      have hlt : n / r.base < n := Nat.div_lt_self (by omega) hb
      rw [Nat.toDigits_of_base_le hb hle, value_concat, ih _ hlt,
        digit?_digitChar (Nat.mod_lt n (by omega))]
      exact Nat.div_add_mod' n r.base

/-- The written form has digits only. -/
theorem isDigit_of_mem_toDigits {r : Radix} {n : Nat} {c : Char}
    (h : c ∈ Nat.toDigits r.base n) : r.isDigit c = true := by
  induction n using Nat.strongRecOn with
  | _ n ih =>
    have hb := one_lt_base r
    by_cases hn : n < r.base
    · rw [Nat.toDigits_of_lt_base hn] at h
      rw [List.mem_singleton.1 h]
      exact isDigit_digitChar hn
    · have hle : r.base ≤ n := Nat.le_of_not_lt hn
      rw [Nat.toDigits_of_base_le hb hle, List.mem_append] at h
      rcases h with h | h
      · exact ih _ (Nat.div_lt_self (by omega) hb) h
      · rw [List.mem_singleton.1 h]
        exact isDigit_digitChar (Nat.mod_lt n (by omega))

theorem toList_unsigned (r : Radix) (n : Nat) :
    (r.unsigned n).toList = r.mark.toList ++ Nat.toDigits r.base n := by
  simp [unsigned]

end Radix

/-- The only word that an integer can have is the one with its value. -/
theorem word?_eq_some_iff {z : Int} {w : Int64} : word? z = some w ↔ w.toInt = z := by
  constructor
  · intro h
    dsimp only [word?] at h
    split at h
    · next hz =>
      rw [← Option.some.inj h, hz]
    · cases h
  · rintro rfl
    simp [word?]

end FlowText
