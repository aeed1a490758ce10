import FlowText.Cond.Read
import FlowText.Proofs.Grammar.Expr

/-!
# The grammar of conditions

`IsCond ts c` and `IsChain ts chain` say which tokens are a text of a condition, and of conditions
joined without parentheses around them. As for expressions, the reader decides the relation:
`readCond_append` and `exists_of_readCond` are the two halves.

A chain groups to the left, while the reader goes to the right and carries the chain so far. So the
completeness of a chain is said of what the reader does behind it (`readChain_append`).
-/

namespace FlowText

open Token (lparen rparen)

mutual

/-- **Conditions.** The tokens are a text of the condition. -/
inductive IsCond : List Token → Cond → Prop where
  | simple {ls rs : List Token} {lhs rhs : Expr} {s : Symbol} {op : Comparison}
    (hl : IsExpr ls lhs) (ho : Comparison.ofSymbol s.text = .ok op) (hr : IsExpr rs rhs) :
    IsCond (lparen :: (ls ++ .symbol s :: (rs ++ [rparen]))) (.simple lhs op rhs)
  | compound {ts : List Token} {chain : Chain} (h : IsChain ts chain) :
    IsCond (lparen :: (ts ++ [rparen])) (.compound chain)

/-- Conditions joined by connectives. -/
inductive IsChain : List Token → Chain → Prop where
  | single {ts : List Token} {c : Cond} (h : IsCond ts c) : IsChain ts (.single c)
  | join {ts us : List Token} {chain : Chain} {t : Token} {word : String} {l : Connective}
    {c : Cond} (h : IsChain ts chain) (hw : connectiveWord? t = some word)
    (hl : Connective.ofWord word = .ok l) (hc : IsCond us c) :
    IsChain (ts ++ t :: us) (.join chain l c)

end

theorem IsCond.exists_cons {ts : List Token} {c : Cond} (h : IsCond ts c) :
    ∃ us, ts = lparen :: us := by
  cases h with
  | simple => exact ⟨_, rfl⟩
  | compound => exact ⟨_, rfl⟩

theorem IsChain.exists_cons {ts : List Token} {chain : Chain} (h : IsChain ts chain) :
    ∃ us, ts = lparen :: us := by
  match h with
  | .single h => exact h.exists_cons
  | .join h _ _ _ =>
    obtain ⟨us, rfl⟩ := h.exists_cons
    exact ⟨_, rfl⟩

/-! ### The equations of the reader -/

/-- Reads a condition, without the fact that it took up tokens. -/
def readCond (ts : List Token) : Except GrammarError (Cond × List Token) :=
  (condition ts).map Parse.toPair

/-- Reads the conditions that are joined to a chain. -/
def readChain (chain : Chain) (ts : List Token) : Except GrammarError (Chain × List Token) :=
  (conditions chain ts).map Parse.toPair

theorem readCond_compound (inner : List Token) :
    readCond (lparen :: lparen :: inner) = do
      let (first, rest) ← readCond (lparen :: inner)
      let (chain, rest) ← readChain (.single first) rest
      return (.compound chain, rest) := by
  rw [readCond, readCond, condition]
  cases condition (lparen :: inner) with
  | error e => rfl
  | ok first =>
    change Except.map _ (conditions (.single first.value) first.rest >>= _) =
      readChain (.single first.value) first.rest >>= _
    rw [readChain]
    cases conditions (.single first.value) first.rest with
    | error e => rfl
    | ok chain => rfl

theorem readCond_simple {inner : List Token} (h : ∀ ts, inner ≠ lparen :: ts) :
    readCond (lparen :: inner) = simple inner := by
  rw [readCond, condition]
  · split
    · next hs => exact hs.symm
    · next hs => exact hs.symm
  · intro ts he
    exact h ts he

theorem readCond_ne {t : Token} {ts : List Token} (h : t ≠ lparen) :
    readCond (t :: ts) = expected .condOpen (t :: ts) := by
  rw [readCond, condition]
  · rfl
  · rintro us he
    cases he
    exact h rfl
  · rintro us he
    cases he
    exact h rfl

theorem readCond_nil : readCond [] = expected .condOpen [] := by
  rw [readCond, condition]
  · rfl
  · intro inner he
    cases he
  · intro inner he
    cases he

theorem readChain_nil (chain : Chain) : readChain chain [] = expected .connective [] := by
  rw [readChain, conditions]
  rfl

theorem readChain_rparen (chain : Chain) (rest : List Token) :
    readChain chain (rparen :: rest) = .ok (chain, rest) := by
  rw [readChain, conditions]
  rfl

theorem readChain_cons (chain : Chain) {t : Token} (ht : t ≠ rparen) (rest : List Token) :
    readChain chain (t :: rest) =
      (match connectiveWord? t with
      | none => expected .connective (t :: rest)
      | some word => do
        let op ← (Connective.ofWord word).mapError .vocabulary
        let (c, rest) ← readCond rest
        readChain (.join chain op c) rest) := by
  rw [readChain, conditions]
  · cases connectiveWord? t with
    | none => rfl
    | some word =>
      dsimp only
      cases (Connective.ofWord word).mapError GrammarError.vocabulary with
      | error e => rfl
      | ok op =>
        change Except.map _ (condition rest >>= _) = readCond rest >>= _
        rw [readCond]
        cases condition rest with
        | error e => rfl
        | ok c =>
          change Except.map _ (conditions (.join chain op c.value) c.rest >>= _) =
            readChain (.join chain op c.value) c.rest
          rw [readChain]
          cases conditions (.join chain op c.value) c.rest with
          | error e => rfl
          | ok longer => rfl
  · exact ht

/-! ### Every text of a condition is read -/

theorem comparison_symbol {s : Symbol} {op : Comparison} (h : Comparison.ofSymbol s.text = .ok op)
    (rest : List Token) : comparison (.symbol s :: rest) = .ok (op, rest) := by
  rw [comparison, h]
  rfl

theorem simple_append {ls rs : List Token} {lhs rhs : Expr} {s : Symbol} {op : Comparison}
    (hl : IsExpr ls lhs) (ho : Comparison.ofSymbol s.text = .ok op) (hr : IsExpr rs rhs)
    (rest : List Token) :
    simple (ls ++ .symbol s :: (rs ++ rparen :: rest)) = .ok (.simple lhs op rhs, rest) := by
  rw [simple, operand_append hl]
  change comparison _ >>= _ = _
  rw [comparison_symbol ho]
  change operand _ >>= _ = _
  rw [operand_append hr]
  rfl

mutual

/-- **Completeness.** What is derived is read, whatever stands behind it. -/
theorem readCond_append {ts : List Token} {c : Cond} (h : IsCond ts c) (rest : List Token) :
    readCond (ts ++ rest) = .ok (c, rest) := by
  cases h with
  | simple hl ho hr =>
    obtain ⟨t, us, hls, ht⟩ := hl.exists_cons
    rw [List.cons_append, List.append_assoc, List.cons_append, List.append_assoc,
      List.singleton_append, readCond_simple, simple_append hl ho hr]
    intro vs he
    rw [hls] at he
    exact ht (List.cons.inj he).1
  | compound h =>
    obtain ⟨us, rfl⟩ := h.exists_cons
    -- the reader takes the first condition, and then goes on with the chain up to its end
    have hc := readChain_append h (rparen :: rest)
    rw [readChain_rparen] at hc
    rw [List.cons_append, List.append_assoc, List.singleton_append, List.cons_append,
      readCond_compound, ← List.cons_append]
    cases hf : readCond (lparen :: us ++ rparen :: rest) with
    | error e =>
      rw [hf] at hc
      cases hc
    | ok p =>
      rw [hf] at hc
      change readChain (.single p.1) p.2 >>= _ = _
      change readChain (.single p.1) p.2 = _ at hc
      rw [hc]
      rfl

/-- Behind the text of a chain, the reader goes on with that chain. -/
theorem readChain_append {ts : List Token} {chain : Chain} (h : IsChain ts chain)
    (rest : List Token) :
    (readCond (ts ++ rest) >>= fun p => readChain (.single p.1) p.2) = readChain chain rest := by
  cases h with
  | single h =>
    rw [readCond_append h]
    rfl
  | @join ts us chain t word l c h hw hl hc =>
    have ht : t ≠ rparen := by
      rintro rfl
      cases hw
    -- the front of the chain is read, and the reader stands at the connective
    rw [List.append_assoc, List.cons_append, readChain_append h, readChain_cons _ ht]
    simp only [hw, hl]
    change readCond _ >>= _ = _
    rw [readCond_append hc]
    rfl

end

/-! ### Nothing else is read -/

theorem exists_of_simple {ts rest : List Token} {c : Cond} (h : simple ts = .ok (c, rest)) :
    ∃ us, ts = us ++ rparen :: rest ∧ IsCond (lparen :: (us ++ [rparen])) c := by
  obtain ⟨⟨lhs, r₁⟩, h₁, h⟩ := ok_of_bind h
  obtain ⟨⟨op, r₂⟩, h₂, h⟩ := ok_of_bind h
  obtain ⟨⟨rhs, r₃⟩, h₃, h⟩ := ok_of_bind h
  obtain ⟨r₄, h₄, h⟩ := ok_of_bind h
  cases h
  obtain ⟨ls, rfl, hl⟩ := exists_of_operand h₁
  obtain ⟨rs, rfl, hr⟩ := exists_of_operand h₃
  rw [eq_cons_of_closeCond h₄] at h₂
  unfold comparison at h₂
  split at h₂
  · next s ts heq =>
    cases hs : Comparison.ofSymbol s.text with
    | error e =>
      rw [hs] at h₂
      cases h₂
    | ok op' =>
      rw [hs] at h₂
      cases h₂
      exact ⟨ls ++ .symbol s :: rs, by simp, by simpa using IsCond.simple hl hs hr⟩
  · cases h₂

/-- What is read from at most `n` tokens is a condition. -/
def CondSound (n : Nat) : Prop :=
  ∀ ts c rest, ts.length ≤ n → readCond ts = .ok (c, rest) → ∃ us, ts = us ++ rest ∧ IsCond us c

/-- What is read from at most `n` tokens continues a chain up to its end. -/
def ChainSound (n : Nat) : Prop :=
  ∀ ts chain chain' rest, ts.length ≤ n → readChain chain ts = .ok (chain', rest) →
    ∃ us, ts = us ++ rparen :: rest ∧ ∀ vs, IsChain vs chain → IsChain (vs ++ us) chain'

theorem condSound_succ {n : Nat} (ihc : CondSound n) (ihj : ChainSound n) : CondSound (n + 1) := by
  intro ts c rest hn h
  cases ts with
  | nil =>
    rw [readCond_nil] at h
    cases h
  | cons t inner =>
    by_cases ht : t = lparen
    · subst ht
      -- two parentheses open a compound
      by_cases hp : ∃ vs, inner = lparen :: vs
      · obtain ⟨vs, rfl⟩ := hp
        rw [readCond_compound] at h
        obtain ⟨⟨first, r₁⟩, h₁, h⟩ := ok_of_bind h
        obtain ⟨⟨chain, r₂⟩, h₂, h⟩ := ok_of_bind h
        cases h
        have hlen : (lparen :: vs).length ≤ n := Nat.le_of_succ_le_succ hn
        obtain ⟨us, hus, hfirst⟩ := ihc _ _ _ hlen h₁
        have hr : r₁.length ≤ n := by
          have := congrArg List.length hus
          rw [List.length_append] at this
          omega
        obtain ⟨ws, rfl, hchain⟩ := ihj _ _ _ _ hr h₂
        refine ⟨lparen :: (us ++ ws ++ [rparen]), ?_, .compound (hchain us (.single hfirst))⟩
        rw [hus]
        simp
      · rw [readCond_simple fun vs hv => hp ⟨vs, hv⟩] at h
        obtain ⟨us, rfl, hc⟩ := exists_of_simple h
        exact ⟨_, by simp, hc⟩
    · rw [readCond_ne ht] at h
      cases h

theorem chainSound_succ {n : Nat} (ihc : CondSound n) (ihj : ChainSound n) :
    ChainSound (n + 1) := by
  intro ts chain chain' rest hn h
  cases ts with
  | nil =>
    rw [readChain_nil] at h
    cases h
  | cons t more =>
    by_cases ht : t = rparen
    · subst ht
      rw [readChain_rparen] at h
      cases h
      exact ⟨[], rfl, fun vs hv => by rwa [List.append_nil]⟩
    · rw [readChain_cons _ ht] at h
      cases hw : connectiveWord? t with
      | none =>
        rw [hw] at h
        cases h
      | some word =>
        rw [hw] at h
        obtain ⟨l, hl, h₀⟩ := ok_of_bind h
        obtain ⟨⟨c, r₁⟩, h₁, h₂⟩ := ok_of_bind h₀
        have hlen : more.length ≤ n := Nat.le_of_succ_le_succ hn
        obtain ⟨us, rfl, hc⟩ := ihc _ _ _ hlen h₁
        have hr : r₁.length ≤ n := by
          rw [List.length_append] at hlen
          omega
        obtain ⟨ws, rfl, hchain⟩ := ihj _ _ _ _ hr h₂
        refine ⟨t :: (us ++ ws), by simp, fun vs hv => ?_⟩
        have := hchain (vs ++ t :: us) (.join hv hw (mapError_eq_ok_iff.1 hl) hc)
        simpa using this

/-- **Soundness.** Both readers go on with fewer tokens, so the induction is on their number. -/
theorem condSound_and_chainSound (n : Nat) : CondSound n ∧ ChainSound n := by
  induction n with
  | zero =>
    constructor
    · intro ts c rest hn h
      obtain rfl := List.eq_nil_of_length_eq_zero (Nat.le_zero.1 hn)
      rw [readCond_nil] at h
      cases h
    · intro ts chain chain' rest hn h
      obtain rfl := List.eq_nil_of_length_eq_zero (Nat.le_zero.1 hn)
      rw [readChain_nil] at h
      cases h
  | succ n ih =>
    obtain ⟨ihc, ihj⟩ := ih
    exact ⟨condSound_succ ihc ihj, chainSound_succ ihc ihj⟩

theorem exists_of_readCond {ts rest : List Token} {c : Cond} (h : readCond ts = .ok (c, rest)) :
    ∃ us, ts = us ++ rest ∧ IsCond us c :=
  (condSound_and_chainSound ts.length).1 ts c rest (Nat.le_refl _) h

end FlowText
