import FlowText.Dump.Exits
import FlowText.Expr.Read
import FlowText.Proofs.Characters

/-!
# The grammar of lists of exits

`IsExits cs exits` says which texts are a list of exits: blanks may stand in front of each mark and
each literal, and behind the closing bracket. Inside a literal every character counts, and any
character may stand behind a backslash. The reader decides the grammar (`read_eq_ok_iff`).

There is one lemma for each part both ways: what the grammar says is read whatever follows
(`…_append`), and nothing else is read (`exists_of_…`).
-/

namespace FlowText

namespace Quoted

/-- **Inside of a literal.** The text `b` between the quotes says the characters `cs`. -/
inductive IsBody : (b cs : List Char) → Prop where
  | nil : IsBody [] []
  | plain {c : Char} {b cs : List Char} (hq : c ≠ quote) (hb : c ≠ '\\') (h : IsBody b cs) :
    IsBody (c :: b) (c :: cs)
  | escaped {c : Char} {b cs : List Char} (h : IsBody b cs) : IsBody ('\\' :: c :: b) (c :: cs)

theorem IsBody.subset {b cs : List Char} (h : IsBody b cs) : cs ⊆ b := by
  induction h with
  | nil => exact List.nil_subset _
  | plain _ _ _ ih => exact List.cons_subset_cons _ ih
  | escaped _ ih => exact List.subset_cons_of_subset _ (List.cons_subset_cons _ ih)

/-- Nothing inside a literal ends it. -/
theorem body?_append {b cs : List Char} (h : IsBody b cs) (rest : List Char) :
    body? (b ++ quote :: rest) = some (cs, rest) := by
  rw [body?]
  induction h with
  | nil => simp [scan]
  | plain hq hb _ ih => simp [scan, hq, hb, ih]
  | escaped _ ih => simp [scan, ih, show ¬ '\\' = quote by decide]

/-- The reader stops at the closing quote. A backslash that it has read belongs to what is
inside. -/
theorem exists_of_scan {escaped : Bool} {cs text rest : List Char}
    (h : scan escaped cs = some (text, rest)) :
    ∃ b, cs = b ++ quote :: rest ∧ IsBody (if escaped then '\\' :: b else b) text := by
  fun_induction scan escaped cs generalizing text rest with
  | case1 => cases h
  | case2 c cs ih =>
    obtain ⟨⟨t, r⟩, hs, he⟩ := Option.map_eq_some_iff.1 h
    cases he
    obtain ⟨b, rfl, hb⟩ := ih hs
    exact ⟨c :: b, rfl, .escaped hb⟩
  | case3 cs =>
    cases h
    exact ⟨[], rfl, .nil⟩
  | case4 cs _ ih =>
    obtain ⟨b, rfl, hb⟩ := ih h
    exact ⟨'\\' :: b, rfl, hb⟩
  | case5 c cs hq hb ih =>
    obtain ⟨⟨t, r⟩, hs, he⟩ := Option.map_eq_some_iff.1 h
    cases he
    obtain ⟨b, rfl, hi⟩ := ih hs
    exact ⟨c :: b, rfl, .plain hq hb hi⟩

/-- The written form of a text says the text. -/
theorem isBody_encode (cs : List Char) : IsBody (cs.flatMap encodeChar) cs := by
  induction cs with
  | nil => exact .nil
  | cons c cs ih =>
    rw [List.flatMap_cons, encodeChar]
    split
    · exact .escaped ih
    · next h =>
      rw [not_or] at h
      exact .plain h.2 h.1 ih

end Quoted

namespace Exits

/-! ### The grammar -/

/-- A mark, with blanks in front of it. -/
inductive IsMark (mark : String) : List Char → Prop where
  | intro {g : List Char} (hg : IsGap g) : IsMark mark (g ++ mark.toList)

/-- A literal that holds a text. -/
inductive IsLiteral : List Char → String → Prop where
  | intro {o b : List Char} {text : String} (ho : IsMark (String.singleton Quoted.quote) o)
    (hb : Quoted.IsBody b text.toList) : IsLiteral (o ++ (b ++ [Quoted.quote])) text

/-- The condition of an exit, or the word for none. -/
inductive IsCondition : List Char → Option String → Prop where
  | none {p : List Char} (h : IsMark noCond p) : IsCondition p none
  | some {p : List Char} {text : String} (h : IsLiteral p text) : IsCondition p (some text)

/-- **One exit.** -/
inductive IsExit : List Char → Exit → Prop where
  | intro {o p s q z : List Char} {cond : Option String} {addr : String} (ho : IsMark "(" o)
    (hp : IsCondition p cond) (hs : IsMark "," s) (hq : IsLiteral q addr) (hz : IsMark ")" z) :
    IsExit (o ++ (p ++ (s ++ (q ++ z)))) (cond, addr)

/-- The end of a list. -/
inductive IsEnd : List Char → Prop where
  | intro {z g : List Char} (hz : IsMark "]" z) (hg : IsGap g) : IsEnd (z ++ g)

/-- One or more exits, and the end of the list. -/
inductive IsItems : List Char → List Exit → Prop where
  | last {p z : List Char} {e : Exit} (h : IsExit p e) (hz : IsEnd z) : IsItems (p ++ z) [e]
  | more {p s q : List Char} {e : Exit} {exits : List Exit} (h : IsExit p e) (hs : IsMark "," s)
    (hq : IsItems q exits) : IsItems (p ++ (s ++ q)) (e :: exits)

/-- **Lists of exits.** -/
inductive IsExits : List Char → List Exit → Prop where
  | nil {o z : List Char} (ho : IsMark "[" o) (hz : IsEnd z) : IsExits (o ++ z) []
  | items {o q : List Char} {exits : List Exit} (ho : IsMark "[" o) (hq : IsItems q exits) :
    IsExits (o ++ q) exits

variable {m : String} {c d : Char} {g p rest : List Char}

/-! ### What the grammar says is read -/

/-- What a gap and another character come before is not eaten. -/
theorem tryEat_gap (hm : m.toList.head? = some c) (hg : IsGap g)
    (hd : isBlank d = false) (hcd : c ≠ d) : tryEat m (g ++ d :: rest) = none := by
  rw [tryEat, hg.dropBlanks_append, dropBlanks_cons hd]
  cases hl : m.toList with
  | nil =>
    rw [hl] at hm
    cases hm
  | cons x xs =>
    rw [hl] at hm
    obtain rfl : x = c := Option.some.inj hm
    exact if_neg hcd

/-- A mark that does not start with a blank is found behind the blanks. -/
theorem tryEat_append (hm : m.toList.head?.any (!isBlank ·) = true) (h : IsMark m p)
    (rest : List Char) : tryEat m (p ++ rest) = some rest := by
  obtain ⟨hg⟩ := h
  rw [tryEat, List.append_assoc, hg.dropBlanks_append]
  cases hl : m.toList with
  | nil =>
    rw [hl] at hm
    cases hm
  | cons c cs =>
    rw [hl] at hm
    rw [List.cons_append, dropBlanks_cons (by simpa using hm)]
    exact dropStart?_eq_some_iff.2 rfl

theorem eat_append (hm : m.toList.head?.any (!isBlank ·) = true) (h : IsMark m p)
    (rest : List Char) : eat m (p ++ rest) = .ok rest := by
  rw [eat, tryEat_append hm h]

theorem literal_append {text : String} (h : IsLiteral p text) (rest : List Char) :
    literal (p ++ rest) = .ok (text, rest) := by
  obtain ⟨ho, hb⟩ := h
  rw [literal, List.append_assoc, eat_append (by decide) ho, List.append_assoc,
    List.singleton_append]
  simp only [bind, Except.bind, Quoted.body?_append hb, pure, Except.pure, String.ofList_toList]

/-- A literal starts with its quote, and so does not look like the word for no condition. -/
theorem condition_append {cond : Option String} (h : IsCondition p cond) (rest : List Char) :
    condition (p ++ rest) = .ok (cond, rest) := by
  cases h with
  | none h => rw [condition, tryEat_append (by decide) h]
  | some h =>
    have hn : tryEat noCond (p ++ rest) = none := by
      obtain ⟨⟨hg⟩, hb⟩ := h
      rw [List.append_assoc, List.append_assoc]
      exact tryEat_gap (c := 'N') rfl hg (d := Quoted.quote) (by decide) (by decide)
    rw [condition, hn]
    change (literal _).map _ = _
    rw [literal_append h]
    rfl

theorem exit_append {e : Exit} (h : IsExit p e) (rest : List Char) :
    exit (p ++ rest) = .ok (e, rest) := by
  obtain ⟨ho, hp, hs, hq, hz⟩ := h
  simp only [exit, List.append_assoc, eat_append (by decide) ho, condition_append hp,
    eat_append (by decide) hs, literal_append hq, eat_append (by decide) hz, bind,
    Except.bind, pure, Except.pure]

theorem finish_eq_ok_iff {u : Unit} : finish g = .ok u ↔ IsGap g := by
  rw [finish]
  constructor
  · intro h
    split at h
    · next hd =>
      obtain ⟨blanks, he, hb, -⟩ := exists_dropBlanks g
      rw [List.isEmpty_iff.1 hd, List.append_nil] at he
      exact he ▸ hb
    · cases h
  · intro h
    rw [h.dropBlanks_eq]
    rfl

/-- The end of a list is found, and nothing behind it. -/
theorem tryEat_end (h : IsEnd p) : ∃ g, tryEat "]" p = some g ∧ finish g = .ok () := by
  obtain ⟨hz, hg⟩ := h
  exact ⟨_, tryEat_append (by decide) hz _, finish_eq_ok_iff.2 hg⟩

theorem items_eq (cs : List Char) :
    items cs = (do
      let (e, rest) ← exit cs
      match tryEat "]" rest with
      | some rest => (finish rest).map fun () => [e]
      | none => do
        let more ← eat "," rest
        (items more).map (e :: ·)) := by
  rw [items]
  split
  · next he =>
    conv => rhs; rw [he]
    rfl
  · next e rest he =>
    conv => rhs; rw [he]
    dsimp only [bind, Except.bind]
    cases tryEat "]" rest with
    | some rest => rfl
    | none =>
      dsimp only
      split
      · next hc => rw [hc]
      · next hc => rw [hc]

theorem items_append {exits : List Exit} (h : IsItems p exits) : items p = .ok exits := by
  induction h with
  | last h hz =>
    obtain ⟨g, hg, hf⟩ := tryEat_end hz
    rw [items_eq, exit_append h]
    simp only [bind, Except.bind, hg, hf]
    rfl
  | @more p s q e exits h hs hq ih =>
    have hn : tryEat "]" (s ++ q) = none := by
      obtain ⟨hg⟩ := hs
      rw [List.append_assoc]
      exact tryEat_gap (c := ']') rfl hg (d := ',') (by decide) (by decide)
    rw [items_eq, exit_append h]
    simp only [bind, Except.bind, hn, eat_append (by decide) hs, ih]
    rfl

/-- A list that is not empty does not start with the closing bracket. -/
theorem IsItems.exists_cons {exits : List Exit} (h : IsItems p exits) :
    ∃ g rest, IsGap g ∧ p = g ++ '(' :: rest := by
  have hexit : ∀ {p : List Char} {e : Exit}, IsExit p e → ∀ rest : List Char,
      ∃ g more, IsGap g ∧ p ++ rest = g ++ '(' :: more := by
    rintro _ _ ⟨⟨hg⟩, -, -, -, -⟩ rest
    exact ⟨_, _, hg, by simp; rfl⟩
  cases h with
  | last h hz => exact hexit h _
  | more h hs hq => exact hexit h _

/-- **Completeness.** What the grammar has is read. -/
theorem read_of_isExits {exits : List Exit} (h : IsExits p exits) : read p = .ok exits := by
  cases h with
  | nil ho hz =>
    obtain ⟨g, hg, hf⟩ := tryEat_end hz
    rw [read, eat_append (by decide) ho]
    simp only [bind, Except.bind, hg, hf]
    rfl
  | @items o q exits ho hq =>
    have hn : tryEat "]" q = none := by
      obtain ⟨g, rest, hg, rfl⟩ := hq.exists_cons
      exact tryEat_gap (c := ']') rfl hg (d := '(') (by decide) (by decide)
    rw [read, eat_append (by decide) ho]
    simp only [bind, Except.bind, hn]
    exact items_append hq

/-! ### Nothing else is read -/

theorem exists_of_tryEat (h : tryEat m p = some rest) : ∃ o, IsMark m o ∧ p = o ++ rest := by
  obtain ⟨g, hp, hg, -⟩ := exists_dropBlanks p
  refine ⟨g ++ m.toList, ⟨hg⟩, ?_⟩
  rw [List.append_assoc, ← dropStart?_eq_some_iff.1 h]
  exact hp

theorem exists_of_eat (h : eat m p = .ok rest) : ∃ o, IsMark m o ∧ p = o ++ rest := by
  rw [eat] at h
  split at h
  · next ht =>
    cases h
    exact exists_of_tryEat ht
  · cases h

theorem exists_of_literal {text : String} (h : literal p = .ok (text, rest)) :
    ∃ q, IsLiteral q text ∧ p = q ++ rest := by
  obtain ⟨body, he, hr⟩ := ok_of_bind h
  obtain ⟨o, ho, rfl⟩ := exists_of_eat he
  split at hr
  · next t r hq =>
    cases hr
    obtain ⟨b, rfl, hb⟩ := Quoted.exists_of_scan hq
    rw [if_neg (by decide), ← String.toList_ofList (l := t)] at hb
    exact ⟨_, .intro ho hb, by simp⟩
  · cases hr

theorem exists_of_condition {cond : Option String} (h : condition p = .ok (cond, rest)) :
    ∃ q, IsCondition q cond ∧ p = q ++ rest := by
  rw [condition] at h
  split at h
  · next ht =>
    cases h
    obtain ⟨o, ho, rfl⟩ := exists_of_tryEat ht
    exact ⟨o, .none ho, rfl⟩
  · obtain ⟨⟨t, r⟩, hl, he⟩ := ok_of_map h
    cases he
    obtain ⟨q, hq, rfl⟩ := exists_of_literal hl
    exact ⟨q, .some hq, rfl⟩

theorem exists_of_exit {e : Exit} (h : exit p = .ok (e, rest)) :
    ∃ q, IsExit q e ∧ p = q ++ rest := by
  obtain ⟨c₁, h₁, h⟩ := ok_of_bind h
  obtain ⟨⟨cond, c₂⟩, h₂, h⟩ := ok_of_bind h
  obtain ⟨c₃, h₃, h⟩ := ok_of_bind h
  obtain ⟨⟨addr, c₄⟩, h₄, h⟩ := ok_of_bind h
  obtain ⟨c₅, h₅, h⟩ := ok_of_bind h
  cases h
  obtain ⟨o, ho, rfl⟩ := exists_of_eat h₁
  obtain ⟨q, hq, rfl⟩ := exists_of_condition h₂
  obtain ⟨s, hs, rfl⟩ := exists_of_eat h₃
  obtain ⟨t, ht, rfl⟩ := exists_of_literal h₄
  obtain ⟨z, hz, rfl⟩ := exists_of_eat h₅
  exact ⟨_, .intro ho hq hs ht hz, by simp⟩

theorem isEnd_of_tryEat {u : Unit} (h : tryEat "]" p = some rest) (hf : finish rest = .ok u) :
    IsEnd p := by
  obtain ⟨z, hz, rfl⟩ := exists_of_tryEat h
  exact .intro hz (finish_eq_ok_iff.1 hf)

/-- An exit takes up characters, so the induction is on the length of the text. -/
theorem isItems_of_items {exits : List Exit} (h : items p = .ok exits) : IsItems p exits := by
  induction hn : p.length using Nat.strongRecOn generalizing p exits with
  | _ n ih =>
    subst hn
    rw [items_eq] at h
    obtain ⟨⟨e, rest⟩, he, hr⟩ := ok_of_bind h
    have hlt := length_lt_of_exit he
    obtain ⟨q, hq, rfl⟩ := exists_of_exit he
    dsimp only at hr
    split at hr
    · next ht =>
      obtain ⟨u, hf, rfl⟩ := ok_of_map hr
      exact .last hq (isEnd_of_tryEat ht hf)
    · obtain ⟨more, hm, hr⟩ := ok_of_bind hr
      obtain ⟨fs, hfs, rfl⟩ := ok_of_map hr
      have hle := length_le_of_eat hm
      obtain ⟨s, hs, rfl⟩ := exists_of_eat hm
      exact .more hq hs (ih _ (by omega) hfs rfl)

/-- **The reader decides the grammar.** -/
theorem read_eq_ok_iff {exits : List Exit} : read p = .ok exits ↔ IsExits p exits := by
  refine ⟨fun h => ?_, read_of_isExits⟩
  obtain ⟨body, he, hr⟩ := ok_of_bind h
  obtain ⟨o, ho, rfl⟩ := exists_of_eat he
  split at hr
  · next ht =>
    obtain ⟨u, hf, rfl⟩ := ok_of_map hr
    exact .nil ho (isEnd_of_tryEat ht hf)
  · exact .items ho (isItems_of_items hr)

end Exits

end FlowText
