import FlowText.Text.Affix
import FlowText.Text.Blank
import FlowText.Text.Literal
import FlowText.Text.Numeral

/-!
# Tokens of the instruction text

* `Symbol`, `Token` — what the text is made of; blanks only separate.
* `Token.first` — the token at the start of a text. A symbol is as long as it can be.
* `lex` — all tokens of a text.
-/

namespace FlowText

/-- An operator symbol. -/
inductive Symbol where
  | shl | shr | eq | ne | le | ge | and | or
  | plus | minus | star | slash | percent | amp | bar | caret | lt | gt
  deriving DecidableEq, Repr

namespace Symbol

/-- The characters of a symbol. -/
def chars : Symbol → List Char
  | shl => ['<', '<']
  | shr => ['>', '>']
  | eq => ['=', '=']
  | ne => ['!', '=']
  | le => ['<', '=']
  | ge => ['>', '=']
  | and => ['&', '&']
  | or => ['|', '|']
  | plus => ['+']
  | minus => ['-']
  | star => ['*']
  | slash => ['/']
  | percent => ['%']
  | amp => ['&']
  | bar => ['|']
  | caret => ['^']
  | lt => ['<']
  | gt => ['>']

/-- The written form. -/
def text (s : Symbol) : String := String.ofList s.chars

/-- All symbols, those of two characters first. -/
def all : List Symbol :=
  [shl, shr, eq, ne, le, ge, and, or,
    plus, minus, star, slash, percent, amp, bar, caret, lt, gt]

/-- **Longest match.** The symbol at the start of a text, and the rest of the text. A symbol of two
characters goes before one of them alone. -/
def first? (cs : List Char) : Option (Symbol × List Char) :=
  all.findSome? fun s => (dropStart? s.chars cs).map fun rest => (s, rest)

end Symbol

/-- A token of the instruction text. -/
inductive Token where
  /-- a dollar sign and a name -/
  | reg (name : String)
  /-- an unsigned number -/
  | number (n : Nat) (radix : Radix)
  /-- a name -/
  | word (name : String)
  | symbol (s : Symbol)
  | lparen
  | rparen
  | comma
  /-- a single equals sign -/
  | assign
  deriving DecidableEq, Repr

/-- How an error message shows a token. -/
def Token.inspect : Token → String
  | reg name => "Reg(" ++ Literal.encode name ++ ")"
  | number n .hex => s!"Number({n}, Hex)"
  | number n .dec => s!"Number({n}, Dec)"
  | word name => "Ident(" ++ Literal.encode name ++ ")"
  | symbol s => "Sym(" ++ Literal.encode s.text ++ ")"
  | lparen => "LParen"
  | rparen => "RParen"
  | comma => "Comma"
  | assign => "Assign"

/-- Why a text cannot be cut into tokens. -/
inductive LexError where
  /-- a dollar sign without a name -/
  | emptyRegister
  /-- a hexadecimal mark without digits -/
  | noDigits
  /-- a number beyond the unsigned 64-bit range -/
  | tooLarge
  /-- a number that runs into a name -/
  | trailing
  /-- a character that starts no token -/
  | unexpected (c : Char)
  deriving DecidableEq, Repr

/-- What is wrong with the text `input`, in words. -/
def LexError.message (input : String) : LexError → String
  | emptyRegister => s!"Empty register name in '{input}'"
  | noDigits => s!"Bad number in '{input}': cannot parse integer from empty string"
  | tooLarge => s!"Bad number in '{input}': number too large to fit in target type"
  | trailing => s!"Bad number in '{input}'"
  | unexpected c => s!"Unexpected character '{c}' in '{input}'"

/-- The character can start a name. -/
def isNameStart (c : Char) : Bool := c.isAlpha || c == '_' || c == '.' || c == '@'

/-- The character can stand in a name. -/
def isNameChar (c : Char) : Bool := c.isAlphanum || c == '_' || c == '.' || c == '@'

namespace Token

/-- The digits of a number at the start of a text, in their base. -/
def numeral : List Char → Radix × List Char
  | '0' :: 'x' :: cs => (.hex, cs)
  | cs => (.dec, cs)

/-- The number at the start of a text, and the rest of the text. -/
def firstNumber (cs : List Char) : Except LexError (Token × List Char) :=
  let (radix, digits) := numeral cs
  let run := digits.takeWhile radix.isDigit
  let rest := digits.dropWhile radix.isDigit
  if run.isEmpty then .error .noDigits
  else if wordLimit ≤ radix.value run then .error .tooLarge
  else if rest.head?.any isNameChar then .error .trailing
  else .ok (number (radix.value run) radix, rest)

/-- The mark or symbol at the start of a text, and the rest of the text. -/
def firstMark (c : Char) (cs : List Char) : Except LexError (Token × List Char) :=
  if c = '(' then .ok (lparen, cs)
  else if c = ')' then .ok (rparen, cs)
  else if c = ',' then .ok (comma, cs)
  else if c = '=' ∧ cs.head? ≠ some '=' then .ok (assign, cs)
  else match Symbol.first? (c :: cs) with
    | some (s, rest) => .ok (symbol s, rest)
    | none => .error (.unexpected c)

/-- **First token.** The token at the start of a text that starts with the character `c`, which is
not blank, and the rest of the text. -/
def first (c : Char) (cs : List Char) : Except LexError (Token × List Char) :=
  if c = '$' then
    if cs.head?.any isNameChar then
      .ok (reg (String.ofList (cs.takeWhile isNameChar)), cs.dropWhile isNameChar)
    else .error .emptyRegister
  else if isNameStart c then
    .ok (word (String.ofList (c :: cs.takeWhile isNameChar)), cs.dropWhile isNameChar)
  else if c.isDigit then firstNumber (c :: cs)
  else firstMark c cs

theorem length_dropWhile_le {α : Type} (p : α → Bool) (l : List α) :
    (l.dropWhile p).length ≤ l.length :=
  (List.dropWhile_suffix p).length_le

/-- A run of digits that is not empty shortens what is left. -/
theorem length_dropWhile_lt {α : Type} {p : α → Bool} {l : List α}
    (h : (l.takeWhile p).isEmpty = false) : (l.dropWhile p).length < l.length := by
  have hl := congrArg List.length (List.takeWhile_append_dropWhile (p := p) (l := l))
  have hp : 0 < (l.takeWhile p).length := by
    cases ht : l.takeWhile p with
    | nil => simp [ht] at h
    | cons => simp
  rw [List.length_append] at hl
  omega

theorem length_numeral_le (cs : List Char) : (numeral cs).2.length ≤ cs.length := by
  unfold numeral
  split
  · simp only [List.length_cons]; omega
  · exact Nat.le_refl _

theorem length_lt_of_firstNumber {cs rest : List Char} {t : Token}
    (h : firstNumber cs = .ok (t, rest)) : rest.length < cs.length := by
  have hn := length_numeral_le cs
  simp only [firstNumber] at h
  split at h
  · cases h
  · next hr =>
    split at h
    · cases h
    · split at h
      · cases h
      · cases h
        have := length_dropWhile_lt (by simpa using hr)
        omega

theorem length_lt_of_symbol {cs rest : List Char} {s : Symbol}
    (h : Symbol.first? cs = some (s, rest)) : rest.length < cs.length := by
  obtain ⟨s', _, hs⟩ := List.exists_of_findSome?_eq_some h
  obtain ⟨r, hr, he⟩ := Option.map_eq_some_iff.1 hs
  cases he
  have hc := dropStart?_eq_some_iff.1 hr
  have hp : 0 < s.chars.length := by cases s <;> decide
  have := congrArg List.length hc
  rw [List.length_append] at this
  omega

/-- Reading a token uses up at least its first character. -/
theorem length_le_of_first {c : Char} {cs rest : List Char} {t : Token}
    (h : first c cs = .ok (t, rest)) : rest.length ≤ cs.length := by
  unfold first at h
  split at h
  · split at h
    · cases h; exact length_dropWhile_le _ _
    · cases h
  · split at h
    · cases h; exact length_dropWhile_le _ _
    · split at h
      · exact Nat.le_of_lt_succ (length_lt_of_firstNumber h)
      · unfold firstMark at h
        split at h
        · cases h; exact Nat.le_refl _
        split at h
        · cases h; exact Nat.le_refl _
        split at h
        · cases h; exact Nat.le_refl _
        split at h
        · cases h; exact Nat.le_refl _
        split at h
        · next hs => cases h; exact Nat.le_of_lt_succ (length_lt_of_symbol hs)
        · cases h

end Token

/-- **Lex.** The tokens of a text. -/
def lex : List Char → Except LexError (List Token)
  | [] => .ok []
  | c :: cs =>
    if isBlank c then lex cs
    else match h : Token.first c cs with
      | .error e => .error e
      | .ok (token, rest) =>
        have : rest.length ≤ cs.length := Token.length_le_of_first h
        (lex rest).map (token :: ·)
termination_by cs => cs.length

end FlowText
