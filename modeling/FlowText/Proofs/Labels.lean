import FlowText.Text.Label
import Mathlib

/-!
# Labels stay between their quotes

Whatever a text is, its escaped form can stand between double quotes: it has no line end in it, each
double quote has a backslash of its own in front of it, and no backslash is left over for the
closing quote (`Label.contained_escape`). `Label.Contained` says this by counting backslashes, which
pieces in a row keep (`Contained.append`).

`Label.Reader` finds the quoted strings of a text. Of a contained label it finds just the label
(`Label.reads_quoted`), so text between quotes cannot pass for text outside of them.
-/

namespace FlowText.Label

/-! ### Counting backslashes -/

/-- The number of backslashes at the end. -/
def backslashes (cs : List Char) : Nat := (cs.reverse.takeWhile (· == '\\')).length

theorem backslashes_nil : backslashes [] = 0 := rfl

theorem backslashes_concat (cs : List Char) (c : Char) :
    backslashes (cs ++ [c]) = if c = '\\' then backslashes cs + 1 else 0 := by
  by_cases h : c = '\\' <;> simp [backslashes, h]

/-- Behind an even number of backslashes, one counts as if nothing were there. The induction is on
the last characters. -/
theorem backslashes_append {s : List Char} (h : backslashes s % 2 = 0) (t : List Char) :
    backslashes (s ++ t) % 2 = backslashes t % 2 := by
  induction t using List.reverseRecOn with
  | nil => rw [List.append_nil, h, backslashes_nil]
  | append_singleton t c ih =>
    rw [← List.append_assoc, backslashes_concat, backslashes_concat]
    split <;> omega

/-- **Contained.** Between double quotes, the text is a label that ends at its closing quote. -/
structure Contained (content : List Char) : Prop where
  no_feed : '\n' ∉ content
  no_return : '\r' ∉ content
  /-- a quote stands behind an odd number of backslashes -/
  quotes : ∀ before after, content = before ++ '\x22' :: after → backslashes before % 2 = 1
  /-- the closing quote does not -/
  ends : backslashes content % 2 = 0

namespace Contained

variable {s t : List Char} {c : Char}

theorem nil : Contained [] := ⟨List.not_mem_nil, List.not_mem_nil, fun _ _ h => by simp at h, rfl⟩

/-- Pieces in a row. -/
theorem append (hs : Contained s) (ht : Contained t) : Contained (s ++ t) := by
  refine ⟨?_, ?_, fun before after h => ?_, ?_⟩
  · simpa using ⟨hs.no_feed, ht.no_feed⟩
  · simpa using ⟨hs.no_return, ht.no_return⟩
  · rcases List.append_eq_append_iff.1 h with ⟨more, rfl, hm⟩ | ⟨more, rfl, hm⟩
    -- the quote stands in the second piece
    · rw [backslashes_append hs.ends]
      exact ht.quotes more after hm
    -- the quote stands in the first piece, or is the first character of the second one
    · cases more with
      | nil =>
        have := ht.quotes [] after hm.symm
        simp [backslashes_nil] at this
      | cons d more =>
        obtain ⟨rfl, rfl⟩ := List.cons.inj hm
        exact hs.quotes before more rfl
  · rw [backslashes_append hs.ends, ht.ends]

/-- A character without a meaning of its own. -/
theorem single (hc : c ≠ '\n' ∧ c ≠ '\r' ∧ c ≠ '\x22' ∧ c ≠ '\\') : Contained [c] := by
  obtain ⟨hfeed, hreturn, hquote, hback⟩ := hc
  refine ⟨by simpa using hfeed.symm, by simpa using hreturn.symm, fun before after h => ?_, ?_⟩
  · have hm : '\x22' ∈ [c] := h ▸ by simp
    exact absurd (List.mem_singleton.1 hm).symm hquote
  · simp [backslashes, hback]

/-- A character behind a backslash. -/
theorem escaped (hc : c ≠ '\n' ∧ c ≠ '\r') : Contained ['\\', c] := by
  refine ⟨by simpa using hc.1.symm, by simpa using hc.2.symm, fun before after h => ?_, ?_⟩
  · cases before with
    | nil => exact absurd (List.cons.inj h).1 (by decide)
    | cons d before =>
      obtain ⟨rfl, hrest⟩ := List.cons.inj h
      cases before with
      | nil => rfl
      | cons e before => simp at hrest
  · by_cases h : c = '\\' <;> simp [backslashes, h]

theorem flatMap {f : Char → List Char} (h : ∀ c ∈ s, Contained (f c)) :
    Contained (s.flatMap f) := by
  induction s with
  | nil => exact nil
  | cons c s ih =>
    rw [List.flatMap_cons]
    exact (h c List.mem_cons_self).append (ih fun d hd => h d (List.mem_cons_of_mem _ hd))

/-- A text without quotes, backslashes and line ends. -/
theorem of_plain (h : ∀ c ∈ s, c ≠ '\n' ∧ c ≠ '\r' ∧ c ≠ '\x22' ∧ c ≠ '\\') : Contained s := by
  have hs := flatMap (f := fun c => [c]) fun c hc => single (h c hc)
  rwa [List.flatMap_singleton'] at hs

end Contained

/-! ### How a character is written -/

/-- The characters that a label could be cut at. -/
def delimiters : List Char := ['\x22', '<', '>', '\x7b', '\x7d']

/-- The four ways in which a character is written: as the mark for a line end, not at all, behind a
backslash, and as it stands. -/
theorem escapeChar_cases (c : Char) :
    c = '\n' ∧ escapeChar c = ['\\', 'l'] ∨ c = '\r' ∧ escapeChar c = [] ∨
      (c ≠ '\n' ∧ c ≠ '\r') ∧ c ≠ 'l' ∧ escapeChar c = ['\\', c] ∨
      (c ≠ '\n' ∧ c ≠ '\r') ∧ c ∉ delimiters ∧ c ≠ '\\' ∧ escapeChar c = [c] := by
  unfold escapeChar
  split
  · exact .inl ⟨rfl, rfl⟩
  · exact .inr (.inl ⟨rfl, rfl⟩)
  iterate 6 exact .inr (.inr (.inl ⟨by decide, by decide, rfl⟩))
  next hfeed hreturn hback hquote hless hgreater hopen hclose =>
    refine .inr (.inr (.inr ⟨⟨hfeed, hreturn⟩, ?_, hback, rfl⟩))
    simp only [delimiters, List.mem_cons, List.not_mem_nil, or_false, not_or]
    exact ⟨hquote, hless, hgreater, hopen, hclose⟩

theorem contained_escapeChar (c : Char) : Contained (escapeChar c) := by
  rcases escapeChar_cases c with
    ⟨-, he⟩ | ⟨-, he⟩ | ⟨hline, -, he⟩ | ⟨⟨hfeed, hreturn⟩, hd, hback, he⟩
  all_goals rw [he]
  · exact .escaped (by decide)
  · exact .nil
  · exact .escaped hline
  · refine .single ⟨hfeed, hreturn, ?_, hback⟩
    rintro rfl
    exact hd (by decide)

/-- **Escaped text is contained.** -/
theorem contained_escape (text : String) : Contained (escape text).toList := by
  rw [toList_escape]
  exact .flatMap fun c _ => contained_escapeChar c

/-! ### Finding quoted strings -/

/-- A reader of quoted strings, which takes any character behind a backslash as it stands. -/
structure Reader where
  /-- the strings that were read -/
  found : List (List Char) := []
  /-- the string that is being read, and whether a backslash stands directly before the next
  character -/
  inside : Option (List Char × Bool) := none
  deriving DecidableEq, Repr

namespace Reader

/-- Reads one character. -/
def step (r : Reader) (c : Char) : Reader :=
  match r.inside with
  | none => if c = '\x22' then { r with inside := some ([], false) } else r
  | some (text, true) => { r with inside := some (text ++ [c], false) }
  | some (text, false) =>
    if c = '\x22' then ⟨r.found ++ [text], none⟩
    else { r with inside := some (text ++ [c], c == '\\') }

/-- Reads a text. -/
def read (r : Reader) (cs : List Char) : Reader := cs.foldl step r

theorem read_append (r : Reader) (cs ds : List Char) : r.read (cs ++ ds) = (r.read cs).read ds :=
  List.foldl_append

end Reader

/-- **Reads.** Wherever the text starts outside of quotes, the reader finds just these strings in
it, and is outside of quotes again. -/
def Reads (cs : List Char) (strings : List (List Char)) : Prop :=
  ∀ found, Reader.read ⟨found, none⟩ cs = ⟨found ++ strings, none⟩

namespace Reads

variable {cs ds : List Char} {ss ts : List (List Char)}

theorem nil : Reads [] [] := fun found => by rw [List.append_nil]; rfl

theorem append (hs : Reads cs ss) (ht : Reads ds ts) :
    Reads (cs ++ ds) (ss ++ ts) := fun found => by
  rw [Reader.read_append, hs, ht, List.append_assoc]

theorem of_not_mem (h : '\x22' ∉ cs) : Reads cs [] := by
  intro found
  rw [List.append_nil]
  induction cs with
  | nil => rfl
  | cons c cs ih =>
    rw [List.mem_cons, not_or] at h
    have hstep : Reader.step ⟨found, none⟩ c = ⟨found, none⟩ := if_neg (Ne.symm h.1)
    exact (congrArg (fun r => Reader.read r cs) hstep).trans (ih h.2)

/-- **A contained label is read as it stands.** While its characters are read, the reader knows
whether an odd number of backslashes was read last. The induction is on what was read. -/
theorem quoted {content : List Char} (h : Contained content) :
    Reads ('\x22' :: content ++ ['\x22']) [content] := by
  intro found
  have hinside : ∀ {before after : List Char}, content = before ++ after →
      Reader.read ⟨found, some ([], false)⟩ before =
        ⟨found, some (before, decide (backslashes before % 2 = 1))⟩ := by
    intro before
    induction before using List.reverseRecOn with
    | nil => exact fun _ => rfl
    | append_singleton before c ih =>
      intro after hc
      rw [List.append_assoc] at hc
      have hquote : backslashes before % 2 = 0 → c ≠ '\x22' := by
        rintro heven rfl
        exact absurd (h.quotes before after hc) (by omega)
      rw [Reader.read_append, ih hc]
      change Reader.step _ c = _
      rw [backslashes_concat]
      rcases Nat.mod_two_eq_zero_or_one (backslashes before) with heven | hodd
      · by_cases hb : c = '\\' <;> simp [Reader.step, heven, hquote heven, hb, Nat.add_mod]
      · by_cases hb : c = '\\' <;> simp [Reader.step, hodd, hb, Nat.add_mod]
  have hclose : Reader.step ⟨found, some (content, false)⟩ '\x22' =
      ⟨found ++ [content], none⟩ := rfl
  have hcontent := hinside (List.append_nil content).symm
  rw [h.ends] at hcontent
  rw [List.cons_append, ← hclose]
  exact (Reader.read_append _ content ['\x22']).trans
    (congrArg (fun r => Reader.read r ['\x22']) hcontent)

end Reads

end FlowText.Label
