import FlowText.Proofs.ReadBack

/-!
# Numbers are exact

A numeral is any digits of a radix, at least one: zeros may stand in front, and hexadecimal digits
may have either case. It denotes a number in the positional system, however long it is. Reading is
exact if the word that is read has just this value, and if there is no word only where the value has
none (`ReadsExactly`).

* `lex_signed`, `lex_offset` — the tokens of a numeral, as a value of its own and as an offset.
* `readsExactly_of_lex` — from the tokens on, a number is read as the word of its value.
* `text_value`, `text_mem` — what is written for a word is a numeral for its absolute value.
-/

namespace FlowText

open Token (lparen rparen)

/-! ### Numerals -/

/-- **Numeral.** Digits behind the mark of their radix. -/
structure Numeral where
  radix : Radix
  digits : List Char
  ne_nil : digits ≠ []
  isDigit : ∀ c ∈ digits, radix.isDigit c = true

namespace Numeral

/-- The written form. -/
def text (n : Numeral) : String := n.radix.mark ++ String.ofList n.digits

/-- The number that is denoted: the last digit counts once, the one in front of it as often as there
are different digits, and so on. -/
def magnitude (n : Numeral) : Nat :=
  Nat.ofDigits n.radix.base (n.digits.reverse.map fun c => (n.radix.digit? c).getD 0)

/-- The value that is worked out digit by digit is the number that is denoted. -/
theorem value_digits (n : Numeral) : n.radix.value n.digits = n.magnitude := by
  have h : ∀ (r : Radix) (ds : List Char),
      r.value ds = Nat.ofDigits r.base (ds.reverse.map fun c => (r.digit? c).getD 0) := by
    intro r ds
    induction ds using List.reverseRecOn with
    | nil => rfl
    | append_singleton ds c ih =>
      rw [Radix.value_concat, ih, List.reverse_concat, List.map_cons, Nat.ofDigits_cons]
      ring
  exact h n.radix n.digits

/-- The numeral that is written for a number. -/
def ofNat (r : Radix) (m : Nat) : Numeral where
  radix := r
  digits := Nat.toDigits r.base m
  ne_nil := Nat.toDigits_ne_nil
  isDigit _ hc := Radix.isDigit_of_mem_toDigits hc

theorem text_ofNat (r : Radix) (m : Nat) : (ofNat r m).text = r.unsigned m := rfl

theorem magnitude_ofNat (r : Radix) (m : Nat) : (ofNat r m).magnitude = m := by
  rw [← value_digits]
  exact r.value_toDigits m

end Numeral

/-- An optional minus sign. -/
def signText (negative : Bool) : String := if negative then "-" else ""

/-- The token of an optional minus sign. -/
def signTokens (negative : Bool) : List Token := if negative then [.symbol .minus] else []

/-- The integer with an optional minus sign and an absolute value. -/
def signedValue (negative : Bool) (m : Nat) : Int := if negative then -m else m

theorem natAbs_signedValue (negative : Bool) (m : Nat) : (signedValue negative m).natAbs = m := by
  cases negative <;> simp [signedValue]

/-! ### The tokens of a number -/

theorem marks_sign (negative : Bool) : Marks (signText negative) (signTokens negative) := by
  cases negative with
  | false => exact marks_gap .nil
  | true => exact marks_minus

/-- The tokens of a text with a numeral in it, where `front` and `rest` are what stands around
it. -/
def withNumber (front : List Token) (n : Numeral) (rest : List Token) :
    Except LexError (List Token) :=
  if wordLimit ≤ n.magnitude then .error .tooLarge
  else .ok (front ++ .number n.magnitude n.radix :: rest)

theorem map_withNumber (ts front : List Token) (n : Numeral) (rest : List Token) :
    (withNumber front n rest).map (ts ++ ·) = withNumber (ts ++ front) n rest := by
  rw [withNumber, withNumber]
  split
  · rfl
  · rw [List.append_assoc]
    rfl

/-- **A numeral is one token**, unless it is too large for one. -/
theorem lex_numeral (n : Numeral) {rest : List Char} {ts : List Token}
    (hr : rest.head?.all endsName = true) (hl : lex rest = .ok ts) :
    lex (n.text.toList ++ rest) = withNumber [] n ts := by
  have hd := lex_digits n.ne_nil n.isDigit hr
  rw [n.value_digits, hl] at hd
  rw [Numeral.text, String.toList_append, String.toList_ofList, List.append_assoc, hd]
  rfl

/-! ### Exact reading -/

/-- **Exact reading** of an integer, where a word stands for the expression `mk w`: it succeeds in
the signed 64-bit range only, and then with the word that has the value. Beyond the range, what
cannot be a token is told from what can. -/
structure ReadsExactly (z : Int) (mk : Int64 → Expr) (x : Except TextError Expr) : Prop where
  ok_iff : (∃ e, x = .ok e) ↔ -2 ^ 63 ≤ z ∧ z ≤ 2 ^ 63 - 1
  value : ∀ e, x = .ok e → ∃ w : Int64, w.toInt = z ∧ e = mk w
  outOfRange : ¬ (-2 ^ 63 ≤ z ∧ z ≤ 2 ^ 63 - 1) → z.natAbs < 2 ^ 64 →
    x = .error (.grammar .outOfRange)
  tooLarge : 2 ^ 64 ≤ z.natAbs → x = .error (.lexical .tooLarge)

/-- The signed 64-bit range has a word for each of its integers. -/
theorem exists_toInt_iff {z : Int} : (∃ w : Int64, w.toInt = z) ↔ -2 ^ 63 ≤ z ∧ z ≤ 2 ^ 63 - 1 := by
  constructor
  · rintro ⟨w, rfl⟩
    have := w.le_toInt
    have := w.toInt_lt
    omega
  · rintro ⟨hlo, hhi⟩
    exact ⟨Int64.ofInt z, Int64.toInt_ofInt_of_le (by omega) (by omega)⟩

/-- What is to be read from tokens with a number in them. -/
def wordResult (z : Int) (mk : Int64 → Expr) : Except GrammarError Expr :=
  match word? z with
  | some w => .ok (mk w)
  | none => .error .outOfRange

/-- What has a numeral among its tokens, and is read from its word, is read exactly. -/
theorem readsExactly_of_lex {s : String} {z : Int} {mk : Int64 → Expr} {n : Numeral}
    {front rest : List Token}
    (hz : z.natAbs = n.magnitude) (hl : lex s.toList = withNumber front n rest)
    (hr : lastOperand (front ++ .number n.magnitude n.radix :: rest) = wordResult z mk) :
    ReadsExactly z mk (Expr.ofText s) := by
  have hlimit : wordLimit = 2 ^ 64 := rfl
  by_cases hlt : n.magnitude < wordLimit
  -- the number is a token
  · have hread : Expr.ofText s = (wordResult z mk).mapError .grammar := by
      rw [withNumber, if_neg (Nat.not_le.2 hlt)] at hl
      rw [← hr, Expr.ofText, readText, hl]
      rfl
    rw [hread, wordResult]
    cases hw : word? z with
    | some w =>
      have hv := word?_eq_some_iff.1 hw
      have hrange := exists_toInt_iff.1 ⟨w, hv⟩
      refine ⟨⟨fun _ => hrange, fun _ => ⟨_, rfl⟩⟩, ?_, fun h => absurd hrange h, fun h => by omega⟩
      rintro e he
      exact ⟨w, hv, (Except.ok.inj he).symm⟩
    | none =>
      have hrange : ¬ (-2 ^ 63 ≤ z ∧ z ≤ 2 ^ 63 - 1) := by
        intro h
        obtain ⟨w, hv⟩ := exists_toInt_iff.2 h
        rw [word?_eq_some_iff.2 hv] at hw
        cases hw
      refine ⟨⟨?_, fun h => absurd h hrange⟩, ?_, fun _ _ => rfl, fun h => by omega⟩
      · rintro ⟨e, he⟩
        cases he
      · rintro e he
        cases he
  -- the number is too large for a token, and so beyond the range
  · have hread : Expr.ofText s = .error (.lexical .tooLarge) := by
      rw [withNumber, if_pos (Nat.not_lt.1 hlt)] at hl
      rw [Expr.ofText, readText, hl]
      rfl
    rw [hread]
    refine ⟨⟨?_, fun h => by omega⟩, ?_, fun _ h => by omega, fun _ => rfl⟩
    · rintro ⟨e, he⟩
      cases he
    · rintro e he
      cases he

/-! ### Values -/

theorem lex_signed (negative : Bool) (n : Numeral) :
    lex (signText negative ++ n.text).toList = withNumber (signTokens negative) n [] := by
  have hn : lex (n.text.toList ++ []) = withNumber [] n [] := lex_numeral n rfl lex_nil
  rw [List.append_nil] at hn
  rw [String.toList_append, (marks_sign negative).lex_append, hn, map_withNumber, List.append_nil]

/-- A number stands for its word if it has one. -/
theorem lastOperand_signed (negative : Bool) (m : Nat) (r : Radix) :
    lastOperand (signTokens negative ++ [.number m r]) =
      wordResult (signedValue negative m) (.value · r) := by
  cases negative with
  | false =>
    change lastOperand [.number m r] = wordResult m _
    simp only [lastOperand, operand, signed, inRange, wordResult]
    cases word? (m : Int) <;> rfl
  | true =>
    change lastOperand [.symbol .minus, .number m r] = wordResult (-m) _
    simp only [lastOperand, operand, signed, inRange, wordResult]
    cases word? (-m : Int) <;> rfl

/-- **A number is read exactly.** -/
theorem value_readsExactly (negative : Bool) (n : Numeral) :
    ReadsExactly (signedValue negative n.magnitude) (.value · n.radix)
      (Expr.ofText (signText negative ++ n.text)) :=
  readsExactly_of_lex (natAbs_signedValue negative n.magnitude) (lex_signed negative n)
    (lastOperand_signed negative n.magnitude n.radix)

/-! ### Offsets -/

/-- How a number is joined to the base of a memory reference. -/
inductive Joining where
  /-- it is added, and may have a sign of its own -/
  | plus (negative : Bool)
  /-- it is taken away -/
  | minus

namespace Joining

/-- The text in front of the number, with a gap behind its first character. -/
def text (gap : String) : Joining → String
  | plus negative => "+" ++ gap ++ signText negative
  | minus => "-" ++ gap

def tokens : Joining → List Token
  | plus negative => .symbol .plus :: signTokens negative
  | minus => [.symbol .minus]

/-- The offset is the opposite of the number. -/
def negative : Joining → Bool
  | plus negative => negative
  | minus => true

theorem marks (j : Joining) {gap : String} (hg : IsGap gap.toList) :
    Marks (j.text gap) j.tokens := by
  cases j with
  | plus negative =>
    rw [text, String.append_assoc]
    exact marks_plus.append ((marks_gap hg).append (marks_sign negative))
  | minus => exact marks_minus.append (marks_gap hg)

/-- No token of the base goes on with the sign in front of an offset. -/
theorem separates_head (j : Joining) (gap : String) :
    (j.text gap).toList.head?.any separates = true := by
  have hplus : separates '+' = true := by decide
  have hminus : separates '-' = true := by decide
  cases j <;> simp [text, hplus, hminus]

/-- The value of an offset is found whatever its signs are. -/
theorem memOffset_tokens (j : Joining) (m : Nat) (r : Radix) (rest : List Token) :
    memOffset (j.tokens ++ .number m r :: rest) =
      (inRange (signedValue j.negative m) r rest).map fun ((w, _), rest) => (w, rest) := by
  cases j with
  | plus negative => cases negative <;> rfl
  | minus => rfl

end Joining

/-- A memory reference with a numeral for its offset. There may be a gap on either side of the sign
that joins it to the base. -/
def offsetText (ty base gap₁ gap₂ : String) (j : Joining) (n : Numeral) : String :=
  "*(" ++ ty ++ "*)" ++ "(" ++ base ++ gap₁ ++ j.text gap₂ ++ n.text ++ ")"

/-- The tokens of a memory reference hold its offset as one numeral. -/
theorem lex_offset {ty base gap₁ gap₂ : String} {bs : List Token} (j : Joining) (n : Numeral)
    (hty : IsWord ty)
    (hb : lex base.toList = .ok bs) (h₁ : IsGap gap₁.toList) (h₂ : IsGap gap₂.toList) :
    lex (offsetText ty base gap₁ gap₂ j n).toList =
      withNumber (typeTokens ty ++ lparen :: (bs ++ j.tokens)) n [rparen] := by
  have hnumber : lex (n.text.toList ++ ")".toList) = withNumber [] n [rparen] :=
    lex_numeral n (by decide) marks_rparen.lex_eq
  have hoffset : lex (gap₁.toList ++ ((j.text gap₂).toList ++ (n.text.toList ++ ")".toList))) =
      withNumber j.tokens n [rparen] := by
    rw [lex_gap h₁, (j.marks h₂).lex_append, hnumber, map_withNumber, List.append_nil]
  -- the base ends at the first gap or, if that is empty, at the sign
  have hhead :
      (gap₁.toList ++ ((j.text gap₂).toList ++ (n.text.toList ++ ")".toList))).head?.any separates =
      true := by
    cases hg : gap₁.toList with
    | nil =>
      have hs := j.separates_head gap₂
      cases hj : (j.text gap₂).toList with
      | nil => simp [hj] at hs
      | cons c cs => simpa [hj] using hs
    | cons b g => exact separates_of_isBlank (h₁ b (by simp [hg]))
  have hbase : lex (base.toList ++
      (gap₁.toList ++ ((j.text gap₂).toList ++ (n.text.toList ++ ")".toList)))) =
      withNumber (bs ++ j.tokens) n [rparen] := by
    rw [lex_append_of_head hhead, hb, ← map_withNumber, ← hoffset]
    rfl
  have hsplit : (offsetText ty base gap₁ gap₂ j n).toList =
      ("*(" ++ ty ++ "*)").toList ++ ("(".toList ++
      (base.toList ++ (gap₁.toList ++
        ((j.text gap₂).toList ++ (n.text.toList ++ ")".toList))))) := by
    simp only [offsetText, String.toList_append, List.append_assoc]
  rw [hsplit, (marks_type hty).lex_append, marks_lparen.lex_append, hbase,
    map_withNumber, map_withNumber]
  rfl

/-- The offset is the word with the sign that joins it to the base. -/
theorem lastOperand_offset {ty : String} {bs : List Token} {e : Expr} (j : Joining)
    (m : Nat) (r : Radix) (hb : IsExpr bs e) :
    lastOperand (typeTokens ty ++ lparen :: (bs ++ j.tokens) ++ .number m r :: [rparen]) =
      wordResult (signedValue j.negative m) (.mem ty e ·) := by
  have hbase := operand_append hb (j.tokens ++ .number m r :: [rparen])
  rw [List.append_assoc, List.cons_append, List.append_assoc, lastOperand, operand_offset, hbase]
  simp only [bind, Except.bind, Joining.memOffset_tokens, inRange, wordResult]
  cases word? (signedValue j.negative m) <;> rfl

/-- **An offset is read exactly.** -/
theorem offset_readsExactly {ty base gap₁ gap₂ : String} {e : Expr} (j : Joining) (n : Numeral)
    (hty : IsWord ty) (hb : Expr.ofText base = .ok e) (h₁ : IsGap gap₁.toList)
    (h₂ : IsGap gap₂.toList) : ReadsExactly (signedValue j.negative n.magnitude) (.mem ty e ·)
      (Expr.ofText (offsetText ty base gap₁ gap₂ j n)) := by
  obtain ⟨bs, hl, hbs⟩ := Expr.ofText_eq_ok_iff.1 hb
  exact readsExactly_of_lex (natAbs_signedValue j.negative n.magnitude)
    (lex_offset j n hty hl h₁ h₂)
    (lastOperand_offset j n.magnitude n.radix hbs)

/-! ### The written forms -/

/-- A number is written as a numeral with an optional sign. -/
theorem text_value (w : Int64) (r : Radix) :
    (Expr.value w r).text = signText (decide (w.toInt < 0)) ++
      (Numeral.ofNat r w.toInt.natAbs).text := by
  rw [Expr.text, String.empty_append, Radix.signed, signText, Numeral.text_ofNat]
  by_cases h : w.toInt < 0 <;> simp [h]

/-- An offset is written with its sign in front, unless it is zero. -/
theorem text_mem (ty : String) (base : Expr) {o : Int64} (ho : o ≠ 0) :
    (Expr.mem ty base o).text =
      offsetText ty base.text " " " " (if 0 < o.toInt then .plus false else .minus)
        (Numeral.ofNat .hex o.toInt.natAbs) := by
  have hne : ¬ o.toInt = 0 := fun h => ho (Int64.toInt_inj.1 h)
  rw [Expr.text, String.empty_append, Expr.memText, if_neg hne]
  by_cases h : 0 < o.toInt
  · simp [h, offsetText, Joining.text, signText, Numeral.text_ofNat, String.append_assoc]
  · simp [h, offsetText, Joining.text, Numeral.text_ofNat, String.append_assoc]

/-- **Numbers are exact.** A numeral with an optional minus sign is read as the word of its value if
it has one, and refused otherwise. So is the offset of a memory reference, whatever its type and
base, be it added or taken away. The other way round, the digits that are written for a word denote
its absolute value, and they are read as that word. -/
theorem numbers_are_exact :
    (∀ (negative : Bool) (n : Numeral),
      ReadsExactly (signedValue negative n.magnitude) (.value · n.radix)
      (Expr.ofText (signText negative ++ n.text))) ∧
    (∀ (ty base gap₁ gap₂ : String) (e : Expr) (j : Joining) (n : Numeral), IsWord ty →
      Expr.ofText base = .ok e → IsGap gap₁.toList → IsGap gap₂.toList →
      ReadsExactly (signedValue j.negative n.magnitude) (.mem ty e ·)
        (Expr.ofText (offsetText ty base gap₁ gap₂ j n))) ∧
    (∀ (w : Int64) (r : Radix), ∃ n : Numeral, n.radix = r ∧ n.magnitude = w.toInt.natAbs ∧
      (Expr.value w r).text = signText (decide (w.toInt < 0)) ++ n.text ∧
      Expr.ofText (Expr.value w r).text = .ok (.value w r)) ∧
    ∀ (ty : String) (base : Expr) (o : Int64), o ≠ 0 →
      ∃ n : Numeral, n.radix = .hex ∧ n.magnitude = o.toInt.natAbs ∧
        (Expr.mem ty base o).text =
          offsetText ty base.text " " " " (if 0 < o.toInt then .plus false else .minus) n ∧
        (IsWord ty → base.Readable → Expr.ofText (Expr.mem ty base o).text =
          .ok (.mem ty base o)) := by
  refine ⟨value_readsExactly, fun ty base gap₁ gap₂ e j n => offset_readsExactly j n, fun w r => ?_,
    fun ty base o ho => ?_⟩
  · exact ⟨.ofNat r _, rfl, Numeral.magnitude_ofNat r _, text_value w r,
      Expr.Readable.ofText (e := .value w r) rfl⟩
  · exact ⟨.ofNat .hex _, rfl, Numeral.magnitude_ofNat .hex _, text_mem ty base ho, fun hty hbase =>
      Expr.Readable.ofText (e := .mem ty base o) ⟨rfl, hty, hbase⟩⟩

/-- The least number without a word, which has one behind a minus sign. A zero stands in front of
it. -/
def Numeral.wordless : Numeral :=
  ⟨.hex, '0' :: '8' :: List.replicate 15 '0', by decide, List.all_eq_true.1 (by decide)⟩

/-- This number as an offset: taken away it is the least offset there is, and added it is out of
range. The least offset is written and read. -/
theorem least_offset_is_exact :
    (IsWord "u32" ∧ Expr.ofText "$sp" = .ok (.reg "sp") ∧ IsGap "\t".toList ∧
      Expr.ofText (offsetText "u32" "$sp" "" "\t" .minus .wordless) =
        .ok (.mem "u32" (.reg "sp") Int64.minValue) ∧
      Expr.ofText (offsetText "u32" "$sp" "" "\t" (.plus false) .wordless) =
        .error (.grammar .outOfRange)) ∧
    Int64.minValue ≠ 0 ∧ Expr.ofText (Expr.mem "u32" (.reg "sp") Int64.minValue).text =
      .ok (.mem "u32" (.reg "sp") Int64.minValue) := by
  obtain ⟨-, hoffset, -, hwritten⟩ := numbers_are_exact
  have hbase : Expr.ofText "$sp" = .ok (.reg "sp") := by cbv
  have hread :=
    fun j => hoffset "u32" "$sp" "" "\t" _ j .wordless (by decide) hbase (by decide) (by decide)
  rw [show Numeral.wordless.magnitude = 2 ^ 63 by decide] at hread
  refine ⟨⟨by decide, hbase, by decide, ?_, ?_⟩, by decide, ?_⟩
  · obtain ⟨e, he⟩ := (hread .minus).ok_iff.2 (by decide)
    obtain ⟨w, hw, rfl⟩ := (hread .minus).value e he
    obtain rfl : w = Int64.minValue := Int64.toInt_inj.1 hw
    exact he
  · exact (hread (.plus false)).outOfRange (by decide) (by decide)
  · obtain ⟨n, -, -, -, hn⟩ := hwritten "u32" (.reg "sp") Int64.minValue (by decide)
    exact hn (by decide) (by decide)

end FlowText
