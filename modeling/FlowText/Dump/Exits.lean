import FlowText.Error
import FlowText.Text.Affix
import FlowText.Text.Quoted

/-!
# Lists of exits

    exits := '[' [exit (',' exit)*] ']'
    exit  := '(' ('None' | literal) ',' literal ')'

An exit is the text of a condition, if there is one, and the address that it leads to. Both are
quoted, so that they may be any text. Blanks may stand in front of each part.

* `Exits.text` — the written form.
* `Exits.read` — reads one, or tells what stands where it should not.
-/

namespace FlowText

/-- An exit: the text of its condition, and the address that it leads to. -/
abbrev Exit := Option String × String

namespace Exits

/-- The word for a missing condition. -/
def noCond : String := "None"

/-- The written form of one exit. -/
def exitText : Exit → String
  | (none, addr) => "(" ++ noCond ++ ", " ++ Quoted.encode addr ++ ")"
  | (some cond, addr) => "(" ++ Quoted.encode cond ++ ", " ++ Quoted.encode addr ++ ")"

/-- **Written form** of a list of exits. -/
def text (exits : List Exit) : String := "[" ++ ", ".intercalate (exits.map exitText) ++ "]"

/-- What follows a mark that may be there, behind blanks. -/
def tryEat (mark : String) (cs : List Char) : Option (List Char) :=
  dropStart? mark.toList (dropBlanks cs)

/-- What follows a mark that has to be there, behind blanks. -/
def eat (mark : String) (cs : List Char) : Except ExitsError (List Char) :=
  match tryEat mark cs with
  | some rest => .ok rest
  | none => .error (.expected mark (String.ofList (dropBlanks cs)))

/-- Reads a literal. -/
def literal (cs : List Char) : Except ExitsError (String × List Char) := do
  let cs ← eat (String.singleton Quoted.quote) cs
  match Quoted.body? cs with
  | some (text, rest) => return (String.ofList text, rest)
  | none => .error .unterminated

/-- Reads the condition of an exit. -/
def condition (cs : List Char) : Except ExitsError (Option String × List Char) :=
  match tryEat noCond cs with
  | some rest => .ok (none, rest)
  | none => (literal cs).map fun (text, rest) => (some text, rest)

/-- Reads one exit. -/
def exit (cs : List Char) : Except ExitsError (Exit × List Char) := do
  let cs ← eat "(" cs
  let (cond, cs) ← condition cs
  let cs ← eat "," cs
  let (addr, cs) ← literal cs
  let cs ← eat ")" cs
  return ((cond, addr), cs)

/-- Nothing but blanks is left. -/
def finish (cs : List Char) : Except ExitsError Unit :=
  if (dropBlanks cs).isEmpty then .ok () else .error (.trailing (String.ofList (dropBlanks cs)))

/-! ### What is left is shorter -/

theorem length_le_of_tryEat {mark : String} {cs rest : List Char}
    (h : tryEat mark cs = some rest) : rest.length + mark.toList.length ≤ cs.length := by
  have hd := length_dropBlanks_le cs
  rw [dropStart?_eq_some_iff.1 h, List.length_append] at hd
  omega

theorem length_le_of_eat {mark : String} {cs rest : List Char} (h : eat mark cs = .ok rest) :
    rest.length + mark.toList.length ≤ cs.length := by
  unfold eat at h
  split at h
  · next ht =>
    cases h
    exact length_le_of_tryEat ht
  · cases h

theorem length_le_of_literal {cs rest : List Char} {text : String}
    (h : literal cs = .ok (text, rest)) : rest.length ≤ cs.length := by
  unfold literal at h
  cases he : eat (String.singleton Quoted.quote) cs with
  | error e => rw [he] at h; cases h
  | ok body =>
    rw [he] at h
    have hb := length_le_of_eat he
    cases hq : Quoted.body? body with
    | none => simp [hq, bind, Except.bind] at h
    | some p =>
      simp only [hq, bind, Except.bind, pure, Except.pure, Except.ok.injEq, Prod.mk.injEq] at h
      obtain ⟨_, rfl⟩ := h
      have := Quoted.length_lt_of_scan hq
      omega

theorem length_le_of_condition {cs rest : List Char} {cond : Option String}
    (h : condition cs = .ok (cond, rest)) : rest.length ≤ cs.length := by
  unfold condition at h
  split at h
  · next ht =>
    cases h
    have := length_le_of_tryEat ht
    omega
  · cases hl : literal cs with
    | error e => rw [hl] at h; cases h
    | ok p =>
      rw [hl] at h
      cases h
      exact length_le_of_literal hl

/-- An exit takes up at least one character. -/
theorem length_lt_of_exit {cs rest : List Char} {e : Exit} (h : exit cs = .ok (e, rest)) :
    rest.length < cs.length := by
  unfold exit at h
  simp only [bind, Except.bind, pure, Except.pure] at h
  split at h
  · cases h
  next c₁ h₁ =>
  split at h
  · cases h
  next p₂ h₂ =>
  split at h
  · cases h
  next c₃ h₃ =>
  split at h
  · cases h
  next p₄ h₄ =>
  split at h
  · cases h
  next c₅ h₅ =>
  cases h
  have e₁ := length_le_of_eat h₁
  have e₂ := length_le_of_condition h₂
  have e₃ := length_le_of_eat h₃
  have e₄ := length_le_of_literal h₄
  have e₅ := length_le_of_eat h₅
  simp only [show "(".toList.length = 1 from by decide] at e₁
  omega

/-- Reads one or more exits, up to the end of the list. -/
def items (cs : List Char) : Except ExitsError (List Exit) :=
  match h : exit cs with
  | .error e => .error e
  | .ok (e, rest) =>
    match tryEat "]" rest with
    | some rest => (finish rest).map fun () => [e]
    | none =>
      match he : eat "," rest with
      | .error e => .error e
      | .ok more =>
        have : more.length < cs.length := by
          have := length_lt_of_exit h
          have := length_le_of_eat he
          omega
        (items more).map (e :: ·)
termination_by cs.length

/-- **Read.** The list of exits that a text is. -/
def read (cs : List Char) : Except ExitsError (List Exit) := do
  let cs ← eat "[" cs
  match tryEat "]" cs with
  | some rest => (finish rest).map fun () => []
  | none => items cs

end Exits

end FlowText
