import FlowText.Text.Lines
import Mathlib

/-!
# Lines written and cut again

`unlines` writes each line of a list behind the other, each with its line feed. Cutting such a text
gives the lines back, except that a carriage return at the end of a line is lost: it is taken for a
part of the line's ending (`lines_unlines`).
-/

namespace FlowText

/-- The text of which these are the lines. -/
def unlines : List String → String
  | [] => ""
  | l :: ls => l ++ "\n" ++ unlines ls

theorem unlines_append (ls ms : List String) : unlines (ls ++ ms) = unlines ls ++ unlines ms := by
  induction ls with
  | nil => rw [List.nil_append, unlines, String.empty_append]
  | cons l ls ih => simp only [List.cons_append, unlines, ih, String.append_assoc]

theorem unlines_singleton (l : String) : unlines [l] = l ++ "\n" := by
  rw [unlines, unlines, String.append_empty]

/-- The line without a carriage return at its end. -/
def dropReturn : List Char → List Char
  | [] => []
  | ['\r'] => []
  | c :: cs => c :: dropReturn cs

theorem dropReturn_cons {c : Char} {cs : List Char} (h : c ≠ '\r' ∨ cs ≠ []) :
    dropReturn (c :: cs) = c :: dropReturn cs := by
  rw [dropReturn]
  rintro rfl rfl
  rcases h with h | h <;> exact h rfl

theorem dropReturn_concat (cs : List Char) : dropReturn (cs ++ ['\r']) = cs := by
  induction cs with
  | nil => rfl
  | cons c cs ih => rw [List.cons_append, dropReturn_cons (.inr (by simp)), ih]

/-- The last character is a carriage return, or nothing is dropped. -/
theorem dropReturn_cases (cs : List Char) :
    (∃ ds, cs = ds ++ ['\r'] ∧ dropReturn cs = ds) ∨
      (cs.getLast? ≠ some '\r' ∧ dropReturn cs = cs) := by
  rcases List.eq_nil_or_concat cs with rfl | ⟨ds, c, rfl⟩
  · exact .inr ⟨nofun, rfl⟩
  · by_cases hc : c = '\r'
    · subst hc
      exact .inl ⟨ds, by simp, by simpa using dropReturn_concat ds⟩
    · refine .inr ⟨by simpa using hc, ?_⟩
      induction ds with
      | nil => rw [List.concat_nil, dropReturn_cons (.inl hc), dropReturn]
      | cons d ds ih => rw [List.concat_cons, dropReturn_cons (.inr (by simp)), ih]

theorem dropReturn_eq_self_iff {cs : List Char} :
    dropReturn cs = cs ↔ cs.getLast? ≠ some '\r' := by
  rcases dropReturn_cases cs with ⟨ds, rfl, hd⟩ | ⟨hl, hd⟩
  · rw [hd]
    simp
  · simp [hd, hl]

theorem mem_of_mem_dropReturn {c : Char} {cs : List Char} (h : c ∈ dropReturn cs) : c ∈ cs := by
  rcases dropReturn_cases cs with ⟨ds, rfl, hd⟩ | ⟨-, hd⟩
  · rw [hd] at h
    exact List.mem_append_left _ h
  · rwa [hd] at h

/-! ### Cutting -/

/-- The first line feed ends the first line. -/
theorem ofText_append_feed {l : List Char} (h : '\n' ∉ l) (rest : List Char) :
    Lines.ofText (l ++ '\n' :: rest) =
      ⟨dropReturn l :: (Lines.ofText rest).lines, l.isEmpty⟩ := by
  induction l with
  | nil => simp [Lines.cons, dropReturn]
  | cons c cs ih =>
    rw [List.mem_cons, not_or] at h
    rw [List.cons_append, Lines.ofText_cons, ih h.2, Lines.cons, if_neg (Ne.symm h.1)]
    -- only a carriage return directly in front of the line feed is dropped
    by_cases hr : c = '\r' ∧ cs = []
    · obtain ⟨rfl, rfl⟩ := hr
      rfl
    · have hr' : c ≠ '\r' ∨ cs ≠ [] := by
        by_cases hc : c = '\r'
        · exact .inr fun hn => hr ⟨hc, hn⟩
        · exact .inl hc
      rw [if_neg (by simpa using hr), dropReturn_cons hr']
      rfl

theorem lines_append_feed {l : List Char} (h : '\n' ∉ l) (rest : List Char) :
    lines (l ++ '\n' :: rest) = dropReturn l :: lines rest := by
  rw [lines, ofText_append_feed h, lines]

/-- **Lines back.** The induction is on the lines. -/
theorem lines_unlines {ls : List String} (h : ∀ l ∈ ls, '\n' ∉ l.toList) :
    lines (unlines ls).toList = ls.map fun l => dropReturn l.toList := by
  induction ls with
  | nil => rfl
  | cons l ls ih =>
    have htext : (unlines (l :: ls)).toList = l.toList ++ '\n' :: (unlines ls).toList := by
      simp [unlines]
    rw [htext, lines_append_feed (h l List.mem_cons_self),
      ih fun m hm => h m (List.mem_cons_of_mem _ hm), List.map_cons]

/-- The characters of the lines are those of the text, without line feeds. -/
theorem mem_of_mem_lines {text l : List Char} {c : Char} (hl : l ∈ lines text) (hc : c ∈ l) :
    c ∈ text ∧ c ≠ '\n' := by
  induction text generalizing l with
  | nil => cases hl
  | cons d ds ih =>
    rw [lines, Lines.ofText_cons, Lines.cons] at hl
    split at hl
    · rcases List.mem_cons.1 hl with rfl | hl
      · cases hc
      · exact (ih hl hc).imp_left (List.mem_cons_of_mem _)
    · next hfeed =>
      split at hl
      · exact (ih hl hc).imp_left (List.mem_cons_of_mem _)
      -- the character goes to the front of the first line, if there is one
      · have hmem : ∀ {line more}, (Lines.ofText ds).lines = line :: more →
            ∀ m ∈ line :: more, m ∈ lines ds := by
          intro line more he m hm
          rw [lines, he]
          exact hm
        split at hl
        · obtain rfl := List.mem_singleton.1 hl
          obtain rfl := List.mem_singleton.1 hc
          exact ⟨List.mem_cons_self, hfeed⟩
        · next line more hmore =>
          rcases List.mem_cons.1 hl with rfl | hl
          · rcases List.mem_cons.1 hc with rfl | hc
            · exact ⟨List.mem_cons_self, hfeed⟩
            · exact (ih (hmem hmore _ List.mem_cons_self) hc).imp_left (List.mem_cons_of_mem _)
          · exact (ih (hmem hmore _ (List.mem_cons_of_mem _ hl)) hc).imp_left
              (List.mem_cons_of_mem _)

end FlowText
