/-!
# Numerals

* `Radix` — hexadecimal with the mark `0x`, or decimal without a mark.
* `Radix.unsigned`, `Radix.signed` — the written forms, in the fewest digits and lower case.
* `Radix.value` — the number that digits of either case denote.
* `word?`, `count?` — readings into a signed and an unsigned 64-bit range.
-/

namespace FlowText

/-- How a number is written. -/
inductive Radix where
  /-- base sixteen, behind the mark `0x` -/
  | hex
  /-- base ten, without a mark -/
  | dec
  deriving DecidableEq, Repr, Inhabited

namespace Radix

/-- The number of different digits. -/
def base : Radix → Nat
  | hex => 16
  | dec => 10

/-- What stands in front of the digits. -/
def mark : Radix → String
  | hex => "0x"
  | dec => ""

/-- The value of a digit. Hexadecimal digits may have either case. -/
def digit? (r : Radix) (c : Char) : Option Nat :=
  let n := c.toNat
  let value :=
    if '0'.toNat ≤ n ∧ n ≤ '9'.toNat then some (n - '0'.toNat)
    else if 'a'.toNat ≤ n ∧ n ≤ 'f'.toNat then some (n - 'a'.toNat + 10)
    else if 'A'.toNat ≤ n ∧ n ≤ 'F'.toNat then some (n - 'A'.toNat + 10)
    else none
  value.filter (· < r.base)

/-- The character is a digit in this base. -/
def isDigit (r : Radix) (c : Char) : Bool := (r.digit? c).isSome

/-- **Value.** The number that a run of digits denotes, most significant digit first. -/
def value (r : Radix) (digits : List Char) : Nat :=
  digits.foldl (fun n c => n * r.base + (r.digit? c).getD 0) 0

/-- The written form of a natural number. -/
def unsigned (r : Radix) (n : Nat) : String := r.mark ++ String.ofList (Nat.toDigits r.base n)

/-- The written form of an integer: the sign stands in front of the mark. -/
def signed (r : Radix) (z : Int) : String :=
  if z < 0 then "-" ++ r.unsigned z.natAbs else r.unsigned z.natAbs

end Radix

/-- Unsigned words are below this bound. -/
def wordLimit : Nat := 18446744073709551616

/-- **Word.** The signed 64-bit word of an integer, if there is one: the only word that could be is
the one that wrapping around gives. -/
def word? (z : Int) : Option Int64 :=
  let w := Int64.ofInt z
  if w.toInt = z then some w else none

/-- **Count.** Reads an unsigned 64-bit number in decimal. A plus sign may stand in front of its
digits. -/
def count? (text : List Char) : Option Nat :=
  let digits := if text.head? = some '+' then text.tail else text
  if digits.isEmpty || !digits.all Radix.dec.isDigit then none
  else
    let n := Radix.dec.value digits
    if n < wordLimit then some n else none

end FlowText
