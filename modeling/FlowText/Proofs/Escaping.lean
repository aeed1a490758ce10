import FlowText.Proofs.Labels

/-!
# Escaping in one pass

Escaping a label can be done one character at a time, or by one replacement after the other, each in
the whole text. The two agree because no replacement finds a character that an earlier one has
written (`inStages_eq_flatMap`): the backslash, which most of them write, is replaced first.

* `exists_of_delimiter` — a delimiter in an escaped text is one of the text itself, behind its own
  backslash.
* `unescape_escape` — read from left to right, the escapes give the text back without its carriage
  returns.
-/

namespace FlowText.Label

/-! ### One replacement after the other -/

/-- A replacement: a character, and what is put in its place. -/
abbrev Stage := Char × List Char

/-- Puts the replacement wherever the character stands. -/
def Stage.apply (stage : Stage) (cs : List Char) : List Char :=
  cs.flatMap fun c => if c = stage.1 then stage.2 else [c]

/-- **In stages.** Every replacement is made in the whole text that the ones before it have left. -/
def inStages (stages : List Stage) (cs : List Char) : List Char :=
  stages.foldl (fun cs stage => stage.apply cs) cs

/-- What one pass with all replacements puts in place of a character. -/
def atOnce (stages : List Stage) (c : Char) : List Char := (stages.lookup c).getD [c]

/-- No replacement finds a character that an earlier one has written. -/
def Apart (stages : List Stage) : Prop := stages.Pairwise fun p q => q.1 ∉ p.2

instance (stages : List Stage) : Decidable (Apart stages) :=
  inferInstanceAs (Decidable (stages.Pairwise fun p q => q.1 ∉ p.2))

theorem atOnce_cons (p : Stage) (stages : List Stage) (c : Char) :
    atOnce (p :: stages) c = if c = p.1 then p.2 else atOnce stages c := by
  by_cases h : c = p.1
  · rw [if_pos h, atOnce, h, List.lookup_cons_self]
    rfl
  · have hb : (c == p.1) = false := beq_eq_false_iff_ne.2 h
    simp only [atOnce, List.lookup, hb, if_neg h]

/-- A text without the characters that are replaced stays as it is. -/
theorem flatMap_atOnce_eq_self {stages : List Stage} {cs : List Char} (h : ∀ p ∈ stages, p.1 ∉ cs) :
    cs.flatMap (atOnce stages) = cs := by
  have hkept : ∀ c ∈ cs, atOnce stages c = [c] := by
    intro c hc
    have hnone : stages.lookup c = none := by
      rw [List.lookup_eq_none_iff]
      intro p hp
      rw [bne_iff_ne]
      rintro rfl
      exact h p hp hc
    rw [atOnce, hnone]
    rfl
  rw [List.flatMap_congr hkept, List.flatMap_singleton']

/-- **One pass.** The induction is on the replacements: the first one has been made, and the others
leave what it has written as it is. -/
theorem inStages_eq_flatMap {stages : List Stage} (h : Apart stages) (cs : List Char) :
    inStages stages cs = cs.flatMap (atOnce stages) := by
  induction stages generalizing cs with
  | nil => exact (List.flatMap_singleton' cs).symm
  | cons p stages ih =>
    obtain ⟨hp, hrest⟩ := List.pairwise_cons.1 h
    calc inStages (p :: stages) cs
      _ = (p.apply cs).flatMap (atOnce stages) := ih hrest _
      _ = cs.flatMap fun c => (if c = p.1 then p.2 else [c]).flatMap (atOnce stages) :=
        List.flatMap_assoc
      _ = cs.flatMap (atOnce (p :: stages)) := ?_
    congr 1
    funext c
    rw [atOnce_cons]
    split
    · exact flatMap_atOnce_eq_self hp
    · exact List.flatMap_singleton _ _

/-- The replacements of a label, in the order in which they are made. -/
def stages : List Stage :=
  [('\\', ['\\', '\\']), ('\x22', ['\\', '\x22']), ('\r', []), ('\n', ['\\', 'l']),
    ('<', ['\\', '<']), ('>', ['\\', '>']), ('\x7b', ['\\', '\x7b']), ('\x7d', ['\\', '\x7d'])]

theorem apart_stages : Apart stages := by decide

theorem atOnce_stages (c : Char) : atOnce stages c = escapeChar c := by
  unfold escapeChar
  split
  -- the characters that are replaced, and all others
  iterate 8 rfl
  next hfeed hreturn hback hquote hless hgreater hopen hclose =>
    simp only [stages, atOnce_cons, if_neg hback, if_neg hquote, if_neg hreturn, if_neg hfeed,
      if_neg hless, if_neg hgreater, if_neg hopen, if_neg hclose]
    rfl

theorem toList_escape_eq_inStages (text : String) :
    (escape text).toList = inStages stages text.toList := by
  rw [toList_escape, inStages_eq_flatMap apart_stages]
  exact List.flatMap_congr fun c _ => (atOnce_stages c).symm

/-- The order counts: a backslash that is replaced last is found in what the others have written. -/
example : ¬ Apart stages.reverse ∧ inStages stages.reverse ['<'] = ['\\', '\\', '<'] := by decide

/-! ### Delimiters -/

/-- A delimiter is written for that delimiter only. -/
theorem eq_of_escapeChar {c d : Char} {before after : List Char} (hc : c ∈ delimiters)
    (h : escapeChar d = before ++ c :: after) : d = c ∧ before = ['\\'] ∧ after = [] := by
  have hback : c ≠ '\\' := by
    rintro rfl
    exact absurd hc (by decide)
  -- behind a backslash, the delimiter can only be the second of two characters
  have hpair : ∀ {e : Char}, ['\\', e] = before ++ c :: after →
      e = c ∧ before = ['\\'] ∧ after = [] := by
    intro e he
    rcases List.append_eq_cons_iff.1 he.symm with ⟨rfl, hcons⟩ | ⟨tail, rfl, htail⟩
    · exact absurd (List.cons.inj hcons).1 hback
    · rcases List.append_eq_cons_iff.1 htail.symm with ⟨rfl, hcons⟩ | ⟨tail, rfl, htail⟩
      · obtain ⟨rfl, rfl⟩ := List.cons.inj hcons
        exact ⟨rfl, rfl, rfl⟩
      · simp at htail
  rcases escapeChar_cases d with ⟨rfl, he⟩ | ⟨rfl, he⟩ | ⟨-, -, he⟩ | ⟨-, hd, -, he⟩
  · obtain ⟨rfl, -, -⟩ := hpair (he ▸ h)
    exact absurd hc (by decide)
  · simp [he] at h
  · exact hpair (he ▸ h)
  · have hm : c ∈ [d] := by
      rw [← he, h]
      simp
    exact absurd (List.mem_singleton.1 hm ▸ hc) hd

/-- **Delimiters are escaped.** The induction is on the characters in front of the delimiter. -/
theorem exists_of_delimiter {c : Char} {cs before after : List Char} (hc : c ∈ delimiters)
    (h : cs.flatMap escapeChar = before ++ c :: after) :
    ∃ s t, cs = s ++ c :: t ∧ before = s.flatMap escapeChar ++ ['\\'] ∧
      after = t.flatMap escapeChar := by
  induction cs generalizing before with
  | nil => simp at h
  | cons d cs ih =>
    rw [List.flatMap_cons] at h
    rcases List.append_eq_append_iff.1 h with ⟨more, rfl, hm⟩ | ⟨more, hd, hm⟩
    -- the delimiter stands behind what the first character is escaped to
    · obtain ⟨s, t, rfl, rfl, rfl⟩ := ih hm
      exact ⟨d :: s, t, rfl, by rw [List.flatMap_cons, List.append_assoc], rfl⟩
    · cases more with
      -- it would stand first in what is left, without a backslash in front of it
      | nil =>
        have hfirst : cs.flatMap escapeChar = [] ++ c :: after := hm.symm
        obtain ⟨s, t, -, hb, -⟩ := ih hfirst
        simp at hb
      | cons e more =>
        obtain ⟨rfl, rfl⟩ := List.cons.inj hm
        obtain ⟨rfl, rfl, rfl⟩ := eq_of_escapeChar hc hd
        exact ⟨[], cs, rfl, rfl, rfl⟩

/-! ### Decoding -/

/-- **Unescape.** Reads the escapes of two characters from left to right. -/
def unescape : List Char → List Char
  | [] => []
  | '\\' :: 'l' :: cs => '\n' :: unescape cs
  | '\\' :: c :: cs => c :: unescape cs
  | c :: cs => c :: unescape cs

theorem unescape_cons {c : Char} (h : c ≠ '\\') (cs : List Char) :
    unescape (c :: cs) = c :: unescape cs := by
  rw [unescape]
  · exact fun _ hc _ => h hc
  · exact fun _ _ hc _ => h hc

theorem unescape_backslash {c : Char} (h : c ≠ 'l') (cs : List Char) :
    unescape ('\\' :: c :: cs) = c :: unescape cs := by
  rw [unescape]
  exact h

/-- What is written for a character is decoded to that character, whatever follows. -/
theorem unescape_escapeChar (c : Char) (cs : List Char) :
    unescape (escapeChar c ++ cs) = [c].filter (· ≠ '\r') ++ unescape cs := by
  rcases escapeChar_cases c with ⟨rfl, he⟩ | ⟨rfl, he⟩ | ⟨⟨-, hr⟩, hl, he⟩ | ⟨⟨-, hr⟩, -, hb, he⟩
  · rw [he]
    rfl
  · rw [he]
    rfl
  · rw [he, List.cons_append, List.singleton_append, unescape_backslash hl]
    simp [hr]
  · rw [he, List.singleton_append, unescape_cons hb]
    simp [hr]

theorem unescape_escape (cs : List Char) :
    unescape (cs.flatMap escapeChar) = cs.filter (· ≠ '\r') := by
  induction cs with
  | nil => rfl
  | cons c cs ih =>
    rw [List.flatMap_cons, unescape_escapeChar, ih, ← List.filter_append]
    rfl

/-- **Escaping** in stages is escaping in one pass, so it works piece by piece. What is written has
no line end in it, and each delimiter in it is one of the text, directly behind the backslash that
was written for it. Decoding gives the text back without its carriage returns. -/
theorem escaping_is_decodable :
    (∀ text : String, (escape text).toList = inStages stages text.toList ∧
      (escape text).toList = text.toList.flatMap escapeChar) ∧
    (∀ s t : String, escape (s ++ t) = escape s ++ escape t) ∧
    (∀ text : String, '\n' ∉ (escape text).toList ∧ '\r' ∉ (escape text).toList) ∧
    (∀ (text : String) (before after : List Char), ∀ c ∈ delimiters,
      (escape text).toList = before ++ c :: after →
        ∃ s t : String, text.toList = s.toList ++ c :: t.toList ∧
          before = (escape s).toList ++ ['\\'] ∧ after = (escape t).toList) ∧
    ∀ text : String, unescape (escape text).toList = text.toList.filter (· ≠ '\r') := by
  refine ⟨fun text => ⟨toList_escape_eq_inStages text, toList_escape text⟩, escape_append,
    fun text => ?_, ?_, fun text => ?_⟩
  · have h := contained_escape text
    exact ⟨h.no_feed, h.no_return⟩
  · intro text before after c hc h
    rw [toList_escape] at h
    obtain ⟨s, t, hs, hb, ha⟩ := exists_of_delimiter hc h
    exact ⟨String.ofList s, String.ofList t, by simpa using hs, by simpa [toList_escape] using hb,
      by simpa [toList_escape] using ha⟩
  · rw [toList_escape, unescape_escape]

/-- A text with a backslash in front of a quote and of a line end. The brace in what is written for
it stands behind its own backslash. -/
theorem backslashes_are_decodable :
    (let text := "\\\"\\\r\n\x7b"
     let before := "\\\\\\\"\\\\\\l\\".toList
     '\x7b' ∈ delimiters ∧ (escape text).toList = before ++ ['\x7b'] ∧
      ∃ s t : String, text.toList = s.toList ++ '\x7b' :: t.toList ∧
        before = (escape s).toList ++ ['\\'] ∧ [] = (escape t).toList) :=
  have hc : '\x7b' ∈ delimiters := by decide
  have h : (escape "\\\"\\\r\n\x7b").toList = "\\\\\\\"\\\\\\l\\".toList ++ ['\x7b'] := by decide
  ⟨hc, h, escaping_is_decodable.2.2.2.1 _ _ _ _ hc h⟩

end FlowText.Label
