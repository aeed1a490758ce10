import FlowText.Op
import FlowText.Proofs.Characters
import FlowText.Proofs.Numerals

/-!
# Lexing piece by piece

A canonical text is put together from pieces, and so are its tokens. `Spells p s ts` says that the
text `s` stands for the tokens `ts` wherever the next character satisfies `p`; `Spells.append` and
`Marks.append` join two pieces. What a name, a number and each symbol stand for is said once.

* `lex_first`, `lex_blank` — the equations of `lex`.
* `spells_word`, `spells_register`, `spells_unsigned`, `marks_…` — the pieces.
* `lex_digits` — any digits are a number, or one that is too large.
* `lex_append_cons` — a separator is where a token ends: the texts on its two sides are cut on their
  own.
* `proper_of_lex` — names and numbers in a list of tokens keep their limits.
-/

namespace FlowText

/-! ### The equations of `lex` -/

/-- An empty text has no tokens. -/
theorem lex_nil : lex [] = .ok [] := by
  rw [lex]

/-- A blank at the start of a text is no part of its first token. -/
theorem lex_blank {c : Char} {cs : List Char} (h : isBlank c = true) : lex (c :: cs) = lex cs := by
  rw [lex, if_pos h]

/-- A gap in front of a text makes no difference. -/
theorem lex_gap {g : List Char} (hg : IsGap g) (cs : List Char) : lex (g ++ cs) = lex cs := by
  induction g with
  | nil => rfl
  | cons b g ih =>
    rw [List.cons_append, lex_blank (hg b List.mem_cons_self),
      ih fun c hc => hg c (List.mem_cons_of_mem _ hc)]

/-- **Unfold.** The first token is read at the first character that is not blank, and the rest
behind it. -/
theorem lex_first {c : Char} {cs rest : List Char} {t : Token} (hb : isBlank c = false)
    (h : Token.first c cs = .ok (t, rest)) : lex (c :: cs) = (lex rest).map (t :: ·) := by
  rw [lex, if_neg (by simp [hb])]
  split
  · next he =>
    rw [h] at he
    cases he
  · next he =>
    rw [h] at he
    cases he
    rfl

/-- If the first token cannot be read, neither can the text. -/
theorem lex_first_error {c : Char} {cs : List Char} {e : LexError} (hb : isBlank c = false)
    (h : Token.first c cs = .error e) : lex (c :: cs) = .error e := by
  rw [lex, if_neg (by simp [hb])]
  split
  · next he =>
    rw [h] at he
    cases he
    rfl
  · next he =>
    rw [h] at he
    cases he

/-! ### Pieces of a text -/

/-- **Spelling.** The text stands for the tokens, as long as the character behind it, if there is
one, satisfies `p`. -/
def Spells (p : Char → Bool) (s : String) (ts : List Token) : Prop :=
  ∀ rest : List Char, rest.head?.all p = true → lex (s.toList ++ rest) = (lex rest).map (ts ++ ·)

/-- The text stands for the tokens whatever follows. -/
abbrev Marks : String → List Token → Prop := Spells fun _ => true

/-- The character does not go on with a name or a number. -/
def endsName (c : Char) : Bool := !isNameChar c

/-- Tokens that are put in front in two turns are put in front together. -/
theorem map_append_map {x : Except LexError (List Token)} {s t : List Token} :
    (x.map (t ++ ·)).map (s ++ ·) = x.map (s ++ t ++ ·) := by
  cases x with
  | error e => rfl
  | ok ts => simp [Except.map]

/-- Two pieces in a row, where the second one starts as the first one needs it. -/
theorem Spells.append {p q : Char → Bool} {a b : String} {s t : List Token} (ha : Spells p a s)
    (hb : Spells q b t) (h : b.toList.head?.any p = true) : Spells q (a ++ b) (s ++ t) := by
  intro rest hr
  have hnext : (b.toList ++ rest).head?.all p = true := by
    cases hl : b.toList with
    | nil =>
      rw [hl] at h
      cases h
    | cons c cs => simpa [hl] using h
  rw [String.toList_append, List.append_assoc, ha _ hnext, hb rest hr, map_append_map]

/-- Marks are read whatever follows them. -/
theorem Marks.lex_append {s : String} {ts : List Token} (h : Marks s ts) (rest : List Char) :
    lex (s.toList ++ rest) = (lex rest).map (ts ++ ·) :=
  h rest (by cases rest.head? <;> rfl)

/-- A piece behind one that needs nothing. -/
theorem Marks.append {q : Char → Bool} {a b : String} {s t : List Token} (ha : Marks a s)
    (hb : Spells q b t) : Spells q (a ++ b) (s ++ t) := by
  intro rest hr
  rw [String.toList_append, List.append_assoc, ha.lex_append, hb rest hr, map_append_map]

/-- A piece that needs less may stand where more is given. -/
theorem Spells.weaken {p q : Char → Bool} {s : String} {ts : List Token} (h : Spells p s ts)
    (hpq : ∀ c, q c = true → p c = true) : Spells q s ts := by
  intro rest hr
  refine h rest ?_
  cases hh : rest.head? with
  | none => rfl
  | some c =>
    rw [hh] at hr
    exact hpq c hr

/-- The tokens of a text that is a single piece. -/
theorem Spells.lex_eq {p : Char → Bool} {s : String} {ts : List Token} (h : Spells p s ts) :
    lex s.toList = .ok ts := by
  have := h [] rfl
  rw [List.append_nil, lex_nil] at this
  simpa [Except.map] using this

/-- A gap is read as no token, whatever follows it. -/
theorem marks_gap {g : String} (hg : IsGap g.toList) : Marks g [] := by
  intro rest _
  rw [lex_gap hg]
  cases lex rest <;> rfl

/-- So is a single blank. -/
theorem marks_blank : Marks " " [] := marks_gap (by decide)

/-- One token that starts with the character `c`. -/
theorem spells_first {p : Char → Bool} {s : String} {c : Char} {cs : List Char} {t : Token}
    (hs : s.toList = c :: cs) (hb : isBlank c = false)
    (h : ∀ rest : List Char, rest.head?.all p = true → Token.first c (cs ++ rest) = .ok (t, rest)) :
    Spells p s [t] := by
  intro rest hr
  rw [hs, List.cons_append, lex_first hb (h rest hr)]
  rfl

/-! ### Marks and symbols -/

/-- An opening parenthesis ends itself. -/
theorem marks_lparen : Marks "(" [.lparen] :=
  spells_first rfl (by decide) fun _ _ => rfl

/-- A closing parenthesis ends itself. -/
theorem marks_rparen : Marks ")" [.rparen] :=
  spells_first rfl (by decide) fun _ _ => rfl

/-- A comma ends itself. -/
theorem marks_comma : Marks "," [.comma] :=
  spells_first rfl (by decide) fun _ _ => rfl

/-- A star begins no longer symbol. -/
theorem marks_star : Marks "*" [.symbol .star] :=
  spells_first rfl (by decide) fun _ _ => rfl

/-- A minus begins no longer symbol. -/
theorem marks_minus : Marks "-" [.symbol .minus] :=
  spells_first rfl (by decide) fun _ _ => rfl

/-- A plus begins no longer symbol. -/
theorem marks_plus : Marks "+" [.symbol .plus] :=
  spells_first rfl (by decide) fun _ _ => rfl

/-- A symbol ends in front of a blank. -/
theorem spells_symbol (s : Symbol) : Spells (· == ' ') s.text [.symbol s] := by
  cases s
  all_goals
    refine spells_first rfl (by decide) fun rest hr => ?_
    cases rest with
    | nil => rfl
    | cons c cs =>
      obtain rfl : c = ' ' := by simpa using hr
      rfl

/-- A single equals sign ends in front of a blank. -/
theorem spells_assign : Spells (· == ' ') "=" [.assign] := by
  refine spells_first rfl (by decide) fun rest hr => ?_
  cases rest with
  | nil => rfl
  | cons c cs =>
    obtain rfl : c = ' ' := by simpa using hr
    rfl

/-- The symbol of a comparison. -/
def Comparison.toSymbol : Comparison → Symbol
  | eq => .eq
  | ne => .ne
  | lt => .lt
  | le => .le
  | gt => .gt
  | ge => .ge

/-- The symbol of a connective. -/
def Connective.toSymbol : Connective → Symbol
  | and => .and
  | or => .or

/-- The symbol of a binary operator. -/
def BinOp.toSymbol : BinOp → Symbol
  | add => .plus
  | sub => .minus
  | mul => .star
  | div => .slash
  | rem => .percent
  | and => .amp
  | or => .bar
  | xor => .caret
  | shl => .shl
  | shr => .shr

/-- A comparison is written as its token is. -/
theorem Comparison.text_toSymbol (op : Comparison) : op.toSymbol.text = op.symbol := by
  cases op <;> rfl

/-- A connective is written as its token is. -/
theorem Connective.text_toSymbol (l : Connective) : l.toSymbol.text = l.symbol := by
  cases l <;> rfl

/-- An operator of two operands is written as its token is. -/
theorem BinOp.text_toSymbol (op : BinOp) : op.toSymbol.text = op.symbol := by
  cases op <;> rfl

/-- A binary operator ends in front of an equals sign, too: no symbol joins the two. -/
theorem spells_binary (op : BinOp) :
    Spells (fun c => c == ' ' || c == '=') op.symbol [.symbol op.toSymbol] := by
  cases op
  all_goals
    refine spells_first rfl (by decide) fun rest hr => ?_
    cases rest with
    | nil => rfl
    | cons c cs =>
      have hc : c = ' ' ∨ c = '=' := by simpa using hr
      rcases hc with rfl | rfl <;> rfl

/-! ### Names and numbers -/

/-- What is taken from a text stops where the characters of the kind do. -/
theorem takeWhile_of_all {p : Char → Bool} {cs rest : List Char} (h : ∀ c ∈ cs, p c = true)
    (hr : rest.head?.all (fun c => !p c) = true) : (cs ++ rest).takeWhile p = cs := by
  rw [List.takeWhile_append_of_pos h]
  cases rest with
  | nil => simp
  | cons c cs => simp_all

/-- What follows is what is left. -/
theorem dropWhile_of_all {p : Char → Bool} {cs rest : List Char} (h : ∀ c ∈ cs, p c = true)
    (hr : rest.head?.all (fun c => !p c) = true) : (cs ++ rest).dropWhile p = rest := by
  rw [List.dropWhile_append_of_pos h]
  cases rest with
  | nil => rfl
  | cons c cs => simp_all

/-- **Word.** It is read up to the first character that no name has. -/
theorem spells_word {w : String} (h : IsWord w) : Spells endsName w [.word w] := by
  obtain ⟨hs, hall⟩ := h
  cases hw : w.toList with
  | nil =>
    rw [hw] at hs
    cases hs
  | cons c cs =>
    rw [hw] at hs hall
    have hstart : isNameStart c = true := by simpa using hs
    have hcode := isNameStart_iff.1 hstart
    -- neither a dollar sign nor a blank can start a name
    have hdollar : c ≠ '$' := fun he => by
      subst he
      exact absurd hstart (by decide)
    refine spells_first hw (isBlank_eq_false (by omega) (by omega)) fun rest hr => ?_
    have htail : ∀ d ∈ cs, isNameChar d = true := fun d hd => hall d (List.mem_cons_of_mem _ hd)
    rw [Token.first, if_neg hdollar, if_pos hstart, takeWhile_of_all htail hr,
      dropWhile_of_all htail hr, ← hw, String.ofList_toList]

/-- **Register.** The name behind the dollar sign is read as a word is. -/
theorem spells_register {name : String} (h : IsRegName name) :
    Spells endsName ("$" ++ name) [.reg name] := by
  obtain ⟨hne, hall⟩ := h
  have hs : ("$" ++ name).toList = '$' :: name.toList := by simp
  refine spells_first hs (by decide) fun rest hr => ?_
  cases hn : name.toList with
  | nil => exact absurd (String.toList_inj.1 hn) hne
  | cons c cs =>
    have hhead : ((c :: cs) ++ rest).head?.any isNameChar = true :=
      hall c (by simp [hn])
    rw [← hn] at hhead ⊢
    rw [Token.first, if_pos rfl, if_pos hhead, takeWhile_of_all hall hr, dropWhile_of_all hall hr,
      String.ofList_toList]

/-- A text without the mark for hexadecimal is in decimal. -/
theorem numeral_eq_dec {cs : List Char} (h : ∀ ds, cs ≠ '0' :: 'x' :: ds) :
    Token.numeral cs = (.dec, cs) := by
  unfold Token.numeral
  split
  · exact absurd rfl (h _)
  · rfl

/-- A decimal digit, as core has it. -/
theorem isDigit_of_dec {c : Char} (h : Radix.dec.isDigit c = true) : c.isDigit = true := by
  rw [isDigit_iff]
  rcases code_of_isDigit h with hc | hc
  · exact hc
  · -- the letters stand for values that are too large
    have hn : Radix.dec.digit? c = none := by
      simp only [Radix.digit?, Radix.base]
      grind
    simp [Radix.isDigit, hn] at h

section Digits

variable {r : Radix} {ds rest : List Char}

/-- The mark in front of the digits tells the radix. Without it, the first two characters are
digits, or one digit and the end of the number. -/
theorem numeral_digits (hne : ds ≠ []) (hd : ∀ c ∈ ds, r.isDigit c = true)
    (hr : rest.head?.all endsName = true) :
    Token.numeral (r.mark.toList ++ (ds ++ rest)) = (r, ds ++ rest) := by
  cases r with
  | hex => rfl
  | dec =>
    rw [show Radix.dec.mark.toList = [] from rfl, List.nil_append]
    refine numeral_eq_dec fun es heq => ?_
    match ds, hne, hd, heq with
    | [d], _, _, heq =>
      have hrest : rest = 'x' :: es := (List.cons.inj heq).2
      rw [hrest] at hr
      cases hr
    | d :: e :: ds, _, hd, heq =>
      have he : e = 'x' := (List.cons.inj (List.cons.inj heq).2).1
      have hx := hd e (by simp)
      rw [he] at hx
      cases hx

/-- A number is read up to its last digit, if it is not too large. -/
theorem firstNumber_digits (hne : ds ≠ []) (hd : ∀ c ∈ ds, r.isDigit c = true)
    (hr : rest.head?.all endsName = true) :
    Token.firstNumber (r.mark.toList ++ (ds ++ rest)) =
      if wordLimit ≤ r.value ds then .error .tooLarge else .ok (.number (r.value ds) r, rest) := by
  have hname : rest.head?.any isNameChar = false := by
    cases rest with
    | nil => rfl
    | cons c cs => simpa [endsName] using hr
  have hend : rest.head?.all (fun c => !r.isDigit c) = true := by
    cases rest with
    | nil => rfl
    | cons c cs =>
      have hc : isNameChar c = false := hname
      have hnd : r.isDigit c = false := by
        by_contra h
        rw [isNameChar_of_isDigit (by simpa using h)] at hc
        cases hc
      simp [hnd]
  have hempty : ds.isEmpty = false := by simpa using hne
  simp [Token.firstNumber, numeral_digits hne hd hr, takeWhile_of_all hd hend,
    dropWhile_of_all hd hend, hname, hempty]

/-- The written form starts with a decimal digit in either base: the mark starts with a zero. -/
theorem exists_cons_digits (hne : ds ≠ []) (hd : ∀ c ∈ ds, r.isDigit c = true) :
    ∃ c cs, r.mark.toList ++ ds = c :: cs ∧ c.isDigit = true := by
  cases r with
  | hex => exact ⟨'0', _, rfl, by decide⟩
  | dec =>
    obtain ⟨c, cs, rfl⟩ := List.exists_cons_of_ne_nil hne
    exact ⟨c, cs, rfl, isDigit_of_dec (hd c List.mem_cons_self)⟩

/-- **Numbers.** Any digits behind the mark of their radix are one token, unless the number is too
large. -/
theorem lex_digits (hne : ds ≠ []) (hd : ∀ c ∈ ds, r.isDigit c = true)
    (hr : rest.head?.all endsName = true) :
    lex (r.mark.toList ++ (ds ++ rest)) =
      if wordLimit ≤ r.value ds then .error .tooLarge
      else (lex rest).map (.number (r.value ds) r :: ·) := by
  obtain ⟨c, cs, hs, hc⟩ := exists_cons_digits hne hd
  have hcode := isDigit_iff.1 hc
  have hb : isBlank c = false := isBlank_eq_false (by omega) (by omega)
  have hdollar : c ≠ '$' := fun he => by
    subst he
    exact absurd hc (by decide)
  have hstart : ¬ isNameStart c = true := by
    rw [isNameStart_iff]
    omega
  have hfirst : Token.first c (cs ++ rest) = Token.firstNumber (r.mark.toList ++ (ds ++ rest)) := by
    rw [Token.first, if_neg hdollar, if_neg hstart, if_pos hc, ← List.cons_append, ← hs,
      List.append_assoc]
  rw [firstNumber_digits hne hd hr] at hfirst
  rw [← List.append_assoc, hs, List.cons_append]
  split at hfirst
  · next h => rw [lex_first_error hb hfirst, if_pos h]
  · next h => rw [lex_first hb hfirst, if_neg h]

end Digits

/-- **Number.** It is read back with its radix if the machine has it. -/
theorem spells_unsigned {r : Radix} {n : Nat} (hn : n < wordLimit) :
    Spells endsName (r.unsigned n) [.number n r] := by
  intro rest hr
  have hdigits : ∀ c ∈ Nat.toDigits r.base n, r.isDigit c = true :=
    fun c hc => Radix.isDigit_of_mem_toDigits hc
  have hl := lex_digits Nat.toDigits_ne_nil hdigits hr
  rw [Radix.value_toDigits, if_neg (Nat.not_le.2 hn)] at hl
  rw [Radix.toList_unsigned, List.append_assoc, hl]
  rfl

/-! ### Separators

No token reaches over a blank: its class ends there at the latest, and no symbol has one in it. The
same holds of every character that stands in no name and nowhere but at the start of a symbol. -/

/-- **Separators.** No token goes on with the character. -/
def separates (c : Char) : Bool := !isNameChar c && Symbol.all.all fun s => !s.chars.tail.contains c

/-- What separates tokens is no part of a name. -/
theorem isNameChar_of_separates {c : Char} (h : separates c = true) : isNameChar c = false := by
  simp only [separates, Bool.and_eq_true, Bool.not_eq_true'] at h
  exact h.1

/-- It may start a symbol, but it does not go on with one. -/
theorem not_mem_tail_of_separates {c : Char} (h : separates c = true) (s : Symbol) :
    c ∉ s.chars.tail := by
  simp only [separates, Bool.and_eq_true] at h
  have hs : s ∈ Symbol.all := by cases s <;> decide
  simpa using List.all_eq_true.1 h.2 s hs

/-- Blanks separate. -/
theorem separates_of_isBlank {b : Char} (h : isBlank b = true) : separates b = true := by
  have hsymbols : Symbol.all.all (fun s => s.chars.tail.all (!isBlank ·)) = true := by decide
  simp only [separates, Bool.and_eq_true, isNameChar_eq_false h, Bool.not_false, true_and]
  rw [List.all_eq_true] at hsymbols ⊢
  intro s hs
  have hnot := List.all_eq_true.1 (hsymbols s hs)
  rw [Bool.not_eq_true', List.contains_eq_mem, decide_eq_false_iff_not]
  intro hb
  simpa [h] using hnot b hb

section Separate

variable {b : Char} {t : List Char}

/-- A character of another kind stops what is taken, whatever follows it. -/
theorem takeWhile_append_cons {p : Char → Bool} (hp : p b = false) (cs : List Char) :
    (cs ++ b :: t).takeWhile p = cs.takeWhile p := by
  induction cs with
  | nil => simp [hp]
  | cons c cs ih => simp [List.takeWhile_cons, ih]

/-- It stays in front of what is left. -/
theorem dropWhile_append_cons {p : Char → Bool} (hp : p b = false) (cs : List Char) :
    (cs ++ b :: t).dropWhile p = cs.dropWhile p ++ b :: t := by
  induction cs with
  | nil => simp [hp]
  | cons c cs ih =>
    rw [List.cons_append, List.dropWhile_cons, List.dropWhile_cons, ih]
    split <;> rfl

/-- What is asked of the first character is not asked of it. -/
theorem any_head?_append_cons {p : Char → Bool} (hp : p b = false) (cs : List Char) :
    (cs ++ b :: t).head?.any p = cs.head?.any p := by
  cases cs <;> simp [hp]

/-- A start that does not hold it ends in front of it. -/
theorem dropStart?_append_cons {start : List Char} (hb : b ∉ start) (cs : List Char) :
    dropStart? start (cs ++ b :: t) = (dropStart? start cs).map (· ++ b :: t) := by
  induction start generalizing cs with
  | nil => rfl
  | cons d ds ih =>
    rw [List.mem_cons, not_or] at hb
    cases cs with
    | nil => simp [dropStart?, Ne.symm hb.1]
    | cons c cs =>
      by_cases hc : d = c
      · simp [dropStart?, hc, ih hb.2]
      · simp [dropStart?, hc]

/-- Behind its first character, a symbol has no separator. -/
theorem first?_append (hb : separates b = true) (c : Char) (cs : List Char) :
    Symbol.first? (c :: (cs ++ b :: t)) =
      (Symbol.first? (c :: cs)).map fun (s, r) => (s, r ++ b :: t) := by
  rw [Symbol.first?, Symbol.first?, List.map_findSome?]
  congr 1
  funext s
  have hdrop : dropStart? s.chars (c :: (cs ++ b :: t)) =
      (dropStart? s.chars (c :: cs)).map (· ++ b :: t) := by
    have htail := not_mem_tail_of_separates hb s
    cases hs : s.chars with
    | nil => rfl
    | cons d ds =>
      rw [hs, List.tail_cons] at htail
      by_cases hd : d = c
      · simp [dropStart?, hd, dropStart?_append_cons htail]
      · simp [dropStart?, hd]
  rw [hdrop, Function.comp_apply, Option.map_map, Option.map_map]
  rfl

/-- **Numeral.** It ends in front of what is no part of a name. -/
theorem numeral_append (hb : isNameChar b = false) (cs : List Char) :
    Token.numeral (cs ++ b :: t) = ((Token.numeral cs).1, (Token.numeral cs).2 ++ b :: t) := by
  have h0 : b ≠ '0' := by
    rintro rfl
    cases hb
  have hx : b ≠ 'x' := by
    rintro rfl
    cases hb
  by_cases h : ∃ ds, cs = '0' :: 'x' :: ds
  · obtain ⟨ds, rfl⟩ := h
    rfl
  · have hcs : ∀ ds, cs ≠ '0' :: 'x' :: ds := fun ds he => h ⟨ds, he⟩
    rw [numeral_eq_dec hcs]
    refine numeral_eq_dec fun ds he => ?_
    -- the separator is no character of the mark, so the mark would lie in front of it
    match cs with
    | [] => exact h0 (List.cons.inj he).1
    | [c] => exact hx (List.cons.inj (List.cons.inj he).2).1
    | c :: d :: es =>
      have hc := (List.cons.inj he).1
      have hd := (List.cons.inj (List.cons.inj he).2).1
      exact hcs es (by rw [hc, hd])

/-- What is left behind a token, with a text added to it. -/
def leaving (t : List Char) : Token × List Char → Token × List Char := fun (tok, r) => (tok, r ++ t)

/-- **Number.** It is read, or refused, as it is without what separates it from more. -/
theorem firstNumber_append (hb : isNameChar b = false) (cs : List Char) :
    Token.firstNumber (cs ++ b :: t) = (Token.firstNumber cs).map (leaving (b :: t)) := by
  have hdigit : ∀ r : Radix, r.isDigit b = false := by
    intro r
    cases h : r.isDigit b with
    | false => rfl
    | true =>
      rw [isNameChar_of_isDigit h] at hb
      cases hb
  simp only [Token.firstNumber, numeral_append hb, takeWhile_append_cons (hdigit _),
    dropWhile_append_cons (hdigit _), any_head?_append_cons hb]
  split
  · rfl
  split
  · rfl
  split <;> rfl

/-- **Mark.** A symbol of two characters is not split by what separates. -/
theorem firstMark_append (hb : separates b = true) (c : Char) (cs : List Char) :
    Token.firstMark c (cs ++ b :: t) = (Token.firstMark c cs).map (leaving (b :: t)) := by
  have heq : (cs ++ b :: t).head? ≠ some '=' ↔ cs.head? ≠ some '=' := by
    cases cs with
    | nil =>
      have hb' : b ≠ '=' := by
        rintro rfl
        cases hb
      simp [hb']
    | cons d ds => rfl
  simp only [Token.firstMark, heq, first?_append hb]
  split
  · rfl
  split
  · rfl
  split
  · rfl
  split
  · rfl
  cases Symbol.first? (c :: cs) <;> rfl

/-- **First token.** What separates it from more leaves it as it is. -/
theorem first_append (hb : separates b = true) (c : Char) (cs : List Char) :
    Token.first c (cs ++ b :: t) = (Token.first c cs).map (leaving (b :: t)) := by
  have hname := isNameChar_of_separates hb
  simp only [Token.first, takeWhile_append_cons hname, dropWhile_append_cons hname,
    any_head?_append_cons hname, ← List.cons_append, firstNumber_append hname, firstMark_append hb]
  split
  · split <;> rfl
  split
  · rfl
  split <;> rfl

/-- **Separators separate.** The tokens in front of a separator and those from it on are found
independently, and so is what cannot be cut. The induction is on the length of the text in front. -/
theorem lex_append_cons (hb : separates b = true) (s : List Char) :
    lex (s ++ b :: t) = lex s >>= fun ts => (lex (b :: t)).map (ts ++ ·) := by
  induction hn : s.length using Nat.strongRecOn generalizing s with
  | _ n ih =>
    cases s with
    | nil =>
      rw [List.nil_append, lex_nil]
      cases lex (b :: t) <;> rfl
    | cons c cs =>
      subst hn
      rw [List.cons_append]
      cases hc : isBlank c with
      | true => rw [lex_blank hc, lex_blank hc, ih _ (Nat.lt_succ_self _) _ rfl]
      | false =>
        cases hf : Token.first c cs with
        | error e =>
          rw [lex_first_error hc hf, lex_first_error hc (by rw [first_append hb, hf]; rfl)]
          rfl
        | ok p =>
          obtain ⟨tok, r⟩ := p
          have hlt : r.length < (c :: cs).length :=
            Nat.lt_succ_of_le (Token.length_le_of_first hf)
          -- the token ends in front of the separator, and what is left of the text is shorter
          rw [lex_first hc hf, lex_first hc (by rw [first_append hb, hf]; rfl), ih _ hlt _ rfl]
          cases lex r with
          | error e => rfl
          | ok ts => cases lex (b :: t) <;> rfl

/-- **Two texts.** They may be read apart if the second one starts with what separates. -/
theorem lex_append_of_head (ht : t.head?.any separates = true) (s : List Char) :
    lex (s ++ t) = lex s >>= fun ts => (lex t).map (ts ++ ·) := by
  cases t with
  | nil => cases ht
  | cons b t => exact lex_append_cons ht s

/-- **Blanks separate**, and are no tokens themselves. -/
theorem lex_append_blank (hb : isBlank b = true) (s : List Char) :
    lex (s ++ b :: t) = lex s >>= fun ts => (lex t).map (ts ++ ·) := by
  rw [lex_append_cons (separates_of_isBlank hb), lex_blank hb]

end Separate

/-- What stands on the two sides of a gap that is not empty is cut on its own. -/
theorem lex_append_gap {g : List Char} (hg : IsGap g) (hne : g ≠ []) (s t : List Char) :
    lex (s ++ g ++ t) = lex s >>= fun ts => (lex t).map (ts ++ ·) := by
  obtain ⟨b, g, rfl⟩ := List.exists_cons_of_ne_nil hne
  rw [List.append_assoc, List.cons_append, lex_append_blank (hg b List.mem_cons_self),
    lex_gap fun c hc => hg c (List.mem_cons_of_mem _ hc)]

/-! ### What tokens hold -/

/-- Names are what the lexer takes for names, and numbers have 64 bits. -/
def Token.Proper : Token → Prop
  | reg name => IsRegName name
  | word name => IsWord name
  | number n _ => n < wordLimit
  | _ => True

/-- A number that is read is one of the machine. -/
theorem proper_of_firstNumber {cs rest : List Char} {t : Token}
    (h : Token.firstNumber cs = .ok (t, rest)) : t.Proper := by
  simp only [Token.firstNumber] at h
  split at h
  · cases h
  split at h
  · cases h
  split at h
  · cases h
  · next hlt _ =>
    cases h
    exact Nat.lt_of_not_le hlt

/-- A mark that is read is proper, since it is no name. -/
theorem proper_of_firstMark {c : Char} {cs rest : List Char} {t : Token}
    (h : Token.firstMark c cs = .ok (t, rest)) : t.Proper := by
  rw [Token.firstMark] at h
  split at h
  · cases h
    trivial
  split at h
  · cases h
    trivial
  split at h
  · cases h
    trivial
  split at h
  · cases h
    trivial
  split at h
  · cases h
    trivial
  · cases h

/-- **Proper.** The first token is one that can be written again. -/
theorem proper_of_first {c : Char} {cs rest : List Char} {t : Token}
    (h : Token.first c cs = .ok (t, rest)) : t.Proper := by
  rw [Token.first] at h
  split at h
  · split at h
    · next hd =>
      cases h
      refine ⟨?_, fun d hm => List.mem_takeWhile_imp (String.toList_ofList ▸ hm)⟩
      intro he
      cases cs with
      | nil => cases hd
      | cons d ds =>
        have hd' : isNameChar d = true := hd
        rw [List.takeWhile_cons, if_pos hd'] at he
        exact absurd (congrArg String.toList he) (by simp)
    · cases h
  split at h
  · next hs =>
    cases h
    refine ⟨by simpa using hs, fun d hm => ?_⟩
    rw [String.toList_ofList, List.mem_cons] at hm
    rcases hm with rfl | hm
    · exact isNameChar_of_isNameStart hs
    · exact List.mem_takeWhile_imp hm
  split at h
  · exact proper_of_firstNumber h
  · exact proper_of_firstMark h

/-- **All proper.** So is every token of a text. -/
theorem proper_of_lex {cs : List Char} {ts : List Token} (h : lex cs = .ok ts) :
    ∀ t ∈ ts, t.Proper := by
  induction hn : cs.length using Nat.strongRecOn generalizing cs ts with
  | _ n ih =>
    cases cs with
    | nil =>
      rw [lex_nil] at h
      cases h
      exact fun t ht => absurd ht List.not_mem_nil
    | cons c cs =>
      subst hn
      cases hc : isBlank c with
      | true =>
        rw [lex_blank hc] at h
        exact ih _ (Nat.lt_succ_self _) h rfl
      | false =>
        cases hf : Token.first c cs with
        | error e =>
          rw [lex_first_error hc hf] at h
          cases h
        | ok p =>
          obtain ⟨tok, r⟩ := p
          rw [lex_first hc hf] at h
          have hlt : r.length < (c :: cs).length :=
            Nat.lt_succ_of_le (Token.length_le_of_first hf)
          cases hr : lex r with
          | error e =>
            rw [hr] at h
            cases h
          | ok us =>
            rw [hr] at h
            cases h
            intro t ht
            rcases List.mem_cons.1 ht with rfl | ht
            · exact proper_of_first hf
            · exact ih _ hlt hr rfl t ht

end FlowText
