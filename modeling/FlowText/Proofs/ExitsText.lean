import FlowText.Dump
import FlowText.Proofs.Grammar.Exits
import Mathlib

/-!
# Lists of exits read back

The written form of a list of exits is a text of the grammar, whatever the quoted texts hold
(`isExits_text`), so it is read as that list (`read_text`). The addresses that are read from any
text consist of characters of that text (`subset_of_read`).
-/

namespace FlowText.Exits

/-- A blank in front is dropped. -/
theorem dropBlanks_blank (cs : List Char) : dropBlanks (' ' :: cs) = dropBlanks cs := by
  rw [dropBlanks, List.dropWhile_cons, if_pos (by decide)]
  rfl

/-! ### Blanks in front

Every part of a list starts with a mark, and takes up the blanks in front of it. -/

section Gap

variable {g p : List Char}

/-- **A gap may stand in front.** Of a mark. -/
theorem IsMark.gap {m : String} (h : IsMark m p) (hg : IsGap g) : IsMark m (g ++ p) := by
  obtain ⟨hp⟩ := h
  rw [← List.append_assoc]
  exact .intro (hg.append hp)

/-- Of a quoted text. -/
theorem IsLiteral.gap {text : String} (h : IsLiteral p text) (hg : IsGap g) :
    IsLiteral (g ++ p) text := by
  obtain ⟨ho, hb⟩ := h
  rw [← List.append_assoc]
  exact .intro (ho.gap hg) hb

/-- Of an exit. -/
theorem IsExit.gap {e : Exit} (h : IsExit p e) (hg : IsGap g) : IsExit (g ++ p) e := by
  obtain ⟨ho, hp, hs, hq, hz⟩ := h
  rw [← List.append_assoc]
  exact .intro (ho.gap hg) hp hs hq hz

/-- Of the first exit. -/
theorem IsItems.gap {exits : List Exit} (h : IsItems p exits) (hg : IsGap g) :
    IsItems (g ++ p) exits := by
  cases h with
  | last h hz =>
    rw [← List.append_assoc]
    exact .last (h.gap hg) hz
  | more h hs hq =>
    rw [← List.append_assoc]
    exact .more (h.gap hg) hs hq

/-- Of a line of exits. -/
theorem IsExits.gap {exits : List Exit} (h : IsExits p exits) (hg : IsGap g) :
    IsExits (g ++ p) exits := by
  cases h with
  | nil ho hz =>
    rw [← List.append_assoc]
    exact .nil (ho.gap hg) hz
  | items ho hq =>
    rw [← List.append_assoc]
    exact .items (ho.gap hg) hq

end Gap

/-! ### The written form -/

/-- One blank is a gap. -/
theorem isGap_blank : IsGap [' '] := fun c hc => by
  rw [List.mem_singleton.1 hc]
  decide

/-- A mark is spelled by itself. -/
theorem isMark_toList (m : String) : IsMark m m.toList := .intro .nil

/-- A text is quoted character by character. -/
theorem toList_encode (t : String) :
    (Quoted.encode t).toList = Quoted.quote ::
      (t.toList.flatMap Quoted.encodeChar ++ [Quoted.quote]) := by
  simp [Quoted.encode]

/-- A quoted text spells the text. -/
theorem isLiteral_encode (t : String) : IsLiteral (Quoted.encode t).toList t := by
  rw [toList_encode]
  exact .intro (isMark_toList (String.singleton Quoted.quote)) (Quoted.isBody_encode t.toList)

/-- **A quoted text is read back**, whatever stands behind it. -/
theorem literal_encode (t : String) (rest : List Char) :
    literal ((Quoted.encode t).toList ++ rest) = .ok (t, rest) :=
  literal_append (isLiteral_encode t) rest

/-- The written form of a condition, or the word for none. -/
def condText (cond : Option String) : String := cond.elim noCond Quoted.encode

/-- A condition is spelled by its quoted text, or by the word for none. -/
theorem isCondition_text (cond : Option String) : IsCondition (condText cond).toList cond := by
  cases cond with
  | none => exact .none (isMark_toList noCond)
  | some t => exact .some (isLiteral_encode t)

theorem exitText_eq (cond : Option String) (addr : String) :
    exitText (cond, addr) = "(" ++ condText cond ++ ", " ++ Quoted.encode addr ++ ")" := by
  cases cond <;> rfl

/-- **An exit** is spelled by its text. -/
theorem isExit_text (e : Exit) : IsExit (exitText e).toList e := by
  obtain ⟨cond, addr⟩ := e
  have h := IsExit.intro (isMark_toList "(") (isCondition_text cond) (isMark_toList ",")
    ((isLiteral_encode addr).gap isGap_blank) (isMark_toList ")")
  have ht : (exitText (cond, addr)).toList = "(".toList ++ ((condText cond).toList ++
      (",".toList ++ (([' '] ++ (Quoted.encode addr).toList) ++ ")".toList))) := by
    rw [exitText_eq]
    simp
  rw [ht]
  exact h

/-- One or more exits, up to the closing bracket. -/
theorem isItems_text (e : Exit) (es : List Exit) :
    IsItems ((", ".intercalate ((e :: es).map exitText)).toList ++ "]".toList) (e :: es) := by
  have hend : IsEnd "]".toList := .intro (isMark_toList "]") .nil
  induction es generalizing e with
  | nil =>
    rw [List.map_singleton, String.intercalate_singleton]
    exact .last (isExit_text e) hend
  | cons f es ih =>
    have ht : (", ".intercalate ((e :: f :: es).map exitText)).toList ++ "]".toList =
        (exitText e).toList ++ (",".toList ++
          ([' '] ++ ((", ".intercalate ((f :: es).map exitText)).toList ++ "]".toList))) := by
      simp [String.intercalate_cons_cons]
    rw [ht]
    exact .more (isExit_text e) (isMark_toList ",") ((ih f).gap isGap_blank)

/-- **The written form is a text of the grammar.** -/
theorem isExits_text (exits : List Exit) : IsExits (text exits).toList exits := by
  have ht : (text exits).toList =
      "[".toList ++ ((", ".intercalate (exits.map exitText)).toList ++ "]".toList) := by
    simp [text]
  rw [ht]
  cases exits with
  | nil =>
    rw [List.map_nil, String.intercalate_nil, String.toList_empty, List.nil_append]
    exact .nil (isMark_toList "[") (.intro (isMark_toList "]") .nil)
  | cons e es => exact .items (isMark_toList "[") (isItems_text e es)

/-- **Round trip.** The list stands behind a blank. -/
theorem read_text (exits : List Exit) : read (' ' :: (text exits).toList) = .ok exits :=
  read_of_isExits ((isExits_text exits).gap isGap_blank)

/-- **Lists of exits survive.** Whatever the texts in a list are, its written form is read as that
list, and so is what a dump has behind the mark for exits. A text that is read is one of the
grammar, and the written form of what was read is read as the same list again. -/
theorem exits_survive :
    (∀ exits : List Exit, read (text exits).toList = .ok exits) ∧
    (∀ (v : View) (addr : String), ∃ list : String,
      v.exitsLine addr = Dump.exitsMark ++ list ++ "\n" ∧ read list.toList = .ok (v.exits addr)) ∧
    (∀ (cs : List Char) (exits : List Exit), read cs = .ok exits ↔ IsExits cs exits) ∧
    ∀ (cs : List Char) (exits : List Exit), read cs = .ok exits →
      read (text exits).toList = .ok exits := by
  refine ⟨fun exits => read_of_isExits (isExits_text exits),
    fun v addr => ⟨" " ++ text (v.exits addr), ?_, ?_⟩,
    fun _ _ => read_eq_ok_iff, fun _ exits _ => read_of_isExits (isExits_text exits)⟩
  · simp only [View.exitsLine, String.append_assoc]
  · rw [String.toList_append]
    exact read_text (v.exits addr)

/-- A list with blanks, with a backslash where none is needed, and with texts that look like its
marks. -/
theorem hostile_exits_survive :
    (let cs := " [ (None ,'it\\'s'), (\t'\\None, \\'\\', ' , ']\\\\' )\n] ".toList
     let exits := [(none, "it's"), (some "None, '', ", "]\\")]
     read cs = .ok exits ∧ read (text exits).toList = .ok exits) := by
  have h : read " [ (None ,'it\\'s'), (\t'\\None, \\'\\', ' , ']\\\\' )\n] ".toList =
      .ok [(none, "it's"), (some "None, '', ", "]\\")] := by cbv
  exact ⟨h, exits_survive.2.2.2 _ _ h⟩

/-! ### Characters of what is read -/

/-- A text is made of characters that are spelled. -/
theorem IsLiteral.subset {p : List Char} {text : String} (h : IsLiteral p text) :
    text.toList ⊆ p := by
  obtain ⟨-, hb⟩ := h
  intro c hc
  simp [hb.subset hc]

/-- So is the target of an exit. -/
theorem IsExit.subset {p : List Char} {e : Exit} (h : IsExit p e) : e.2.toList ⊆ p := by
  obtain ⟨-, -, -, hq, -⟩ := h
  intro c hc
  simp [hq.subset hc]

/-- So are all targets. -/
theorem IsItems.subset {p : List Char} {exits : List Exit} (h : IsItems p exits) :
    ∀ e ∈ exits, e.2.toList ⊆ p := by
  induction h with
  | last h =>
    intro f hf
    obtain rfl := List.mem_singleton.1 hf
    exact List.subset_append_of_subset_left _ h.subset
  | more h hs hq ih =>
    intro f hf c hc
    rcases List.mem_cons.1 hf with rfl | hf
    · simp [h.subset hc]
    · simp [ih f hf hc]

/-- **Characters.** The addresses that are read consist of characters of the text. -/
theorem subset_of_read {cs : List Char} {exits : List Exit} (h : read cs = .ok exits) :
    ∀ e ∈ exits, e.2.toList ⊆ cs := by
  cases read_eq_ok_iff.1 h with
  | nil => exact fun e hm => absurd hm List.not_mem_nil
  | items ho hq => exact fun e hm => List.subset_append_of_subset_right _ (hq.subset e hm)

end FlowText.Exits
