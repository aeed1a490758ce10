/-!
# Single-quoted literals

A literal stands between two single quotes, whatever it holds. Inside it a single quote and a
backslash are written behind a backslash. The reader takes any character behind a backslash as it
stands.

* `Quoted.encode` — the written form.
* `Quoted.body?` — the text up to the closing quote, and what follows the quote.
-/

namespace FlowText.Quoted

/-- The quote that opens and closes a literal. -/
def quote : Char := '\x27'

/-- The written form of one character of a literal. -/
def encodeChar (c : Char) : List Char := if c = '\\' ∨ c = quote then ['\\', c] else [c]

/-- **Encode.** The literal that holds a text. -/
def encode (text : String) : String :=
  String.ofList (quote :: text.toList.flatMap encodeChar ++ [quote])

/-- Reads a literal from a place inside it; `escaped` tells that a backslash stands directly before
that place. -/
def scan : (escaped : Bool) → List Char → Option (List Char × List Char)
  | _, [] => none
  | true, c :: cs => (scan false cs).map fun (text, rest) => (c :: text, rest)
  | false, c :: cs =>
    if c = quote then some ([], cs)
    else if c = '\\' then scan true cs
    else (scan false cs).map fun (text, rest) => (c :: text, rest)

/-- **Body.** Reads a literal behind its opening quote: the text that it holds, and what follows
its closing quote. There is none if the text ends first. -/
def body? (cs : List Char) : Option (List Char × List Char) := scan false cs

/-- The closing quote lies behind the place where reading starts. -/
theorem length_lt_of_scan {escaped : Bool} {cs text rest : List Char}
    (h : scan escaped cs = some (text, rest)) : rest.length < cs.length := by
  fun_induction scan escaped cs generalizing text rest with
  | case1 => simp at h
  | case2 c cs ih =>
    obtain ⟨⟨t, r⟩, hs, he⟩ := Option.map_eq_some_iff.1 h
    cases he
    exact Nat.lt_succ_of_lt (ih hs)
  | case3 cs => simp_all
  | case4 cs _ ih => exact Nat.lt_succ_of_lt (ih h)
  | case5 c cs _ _ ih =>
    obtain ⟨⟨t, r⟩, hs, he⟩ := Option.map_eq_some_iff.1 h
    cases he
    exact Nat.lt_succ_of_lt (ih hs)

end FlowText.Quoted
