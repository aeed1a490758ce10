/-!
# Blank characters

* `isBlank` — the Unicode property `White_Space`.
* `dropBlanks`, `trim` — a text without the blanks at its start, or at both ends.
-/

namespace FlowText

/-- **Blank.** The character has the Unicode property `White_Space`. The property holds of 25
characters, and of far more than the four that `Char.isWhitespace` knows. -/
def isBlank (c : Char) : Bool :=
  let n := c.toNat
  (0x09 ≤ n && n ≤ 0x0d) || n == 0x20 || n == 0x85 || n == 0xa0 || n == 0x1680 ||
    (0x2000 ≤ n && n ≤ 0x200a) || n == 0x2028 || n == 0x2029 || n == 0x202f || n == 0x205f ||
    n == 0x3000

/-- The characters from the first one that is not blank. -/
def dropBlanks (cs : List Char) : List Char := cs.dropWhile isBlank

/-- The characters from the first to the last one that is not blank. -/
def trim (cs : List Char) : List Char := (dropBlanks (dropBlanks cs).reverse).reverse

/-- Dropping blanks never makes a text longer. -/
theorem length_dropBlanks_le (cs : List Char) : (dropBlanks cs).length ≤ cs.length := by
  simpa [dropBlanks] using (List.dropWhile_suffix isBlank (l := cs)).length_le

end FlowText
