import FlowText.Proofs.ReadEntries

/-!
# Outlines of texts

The lines of a dump fall into sections, one for each entry, and a rest. Each line is told apart from
the others by what it starts with, so a text has one outline at most (`Outline.lines_injective`).

* `IsIdle`, `IsNumber`, `IsLabel` — the lines between two blocks.
* `Section` — the lines that an entry is read from.
* `Outline` — the sections of a text, in order, and the lines behind the last of them.
-/

namespace FlowText

open Reading

/-! ### Lines between blocks -/

/-- The lines of a text. -/
def textLines (text : String) : List String := (lines text.toList).map String.ofList

theorem textLines_append_feed {line : String} (h : '\n' ∉ line.toList)
    (hr : line.toList.getLast? ≠ some '\r') (rest : String) :
    textLines (line ++ "\n" ++ rest) = line :: textLines rest := by
  have htext : (line ++ "\n" ++ rest).toList = line.toList ++ '\n' :: rest.toList := by simp
  rw [textLines, htext, lines_append_feed h, dropReturn_eq_self_iff.2 hr, List.map_cons,
    String.ofList_toList, textLines]

/-- **Idle lines.** Blank lines and lines of predecessors. -/
def IsIdle (line : String) : Prop :=
  (trim line.toList).isEmpty = true ∨ Dump.predMark.toList <+: line.toList

instance (line : String) : Decidable (IsIdle line) := inferInstanceAs (Decidable (_ ∨ _))

/-- The postorder number on a line. -/
def numberOn? (line : String) : Option Nat :=
  (behind? Dump.numberMark line.toList).bind fun text => count? (trim text)

/-- **Numbers.** -/
def IsNumber (line : String) : Prop := (numberOn? line).isSome = true

/-- The lines that may stand in front of a label. -/
def IsFront (line : String) : Prop := IsIdle line ∨ IsNumber line

/-- The line of a label is none of those that may stand in front of it. -/
theorem not_isFront_label {addr : String} (h : IsLabel addr) : ¬ IsFront (addr ++ ":") := by
  obtain ⟨-, hpred, hnumber⟩ := h
  rw [IsFront, IsIdle, IsNumber, numberOn?, toList_append_colon, isEmpty_trim_colon,
    behind?_eq_none hnumber]
  rintro ((hblank | hp) | hn)
  · cases hblank
  · exact hpred hp
  · cases hn

/-- An idle line holds no number. -/
theorem numberOn?_of_isIdle {line : String} (h : IsIdle line) : numberOn? line = none := by
  rw [numberOn?, behind?_eq_none]
  · rfl
  rintro ⟨rest, hrest⟩
  rcases h with hblank | ⟨more, hmore⟩
  · rw [← hrest, isEmpty_trim (c := '/') (by simp [Dump.numberMark]) (by decide)] at hblank
    cases hblank
  · rw [← hmore] at hrest
    simp [Dump.numberMark, Dump.predMark] at hrest

/-- The last number on the lines in front of a label. -/
def lastNumber? (front : List String) : Option Nat := (front.filterMap numberOn?).getLast?

/-- An idle line changes no number. -/
theorem lastNumber?_concat_idle {line : String} (h : IsIdle line) (front : List String) :
    lastNumber? (front ++ [line]) = lastNumber? front := by
  rw [lastNumber?, List.filterMap_append, List.filterMap_cons_none (numberOn?_of_isIdle h),
    List.filterMap_nil, List.append_nil]
  rfl

theorem lastNumber?_concat_number {line : String} {k : Nat} (h : numberOn? line = some k)
    (front : List String) : lastNumber? (front ++ [line]) = some k := by
  rw [lastNumber?, List.filterMap_append, List.filterMap_cons_some h]
  exact List.getLast?_concat

/-- The lines of labels. -/
def IsLabelLine (line : String) : Prop := ∃ addr, IsLabel addr ∧ line = addr ++ ":"

theorem IsLabelLine.not_isFront {line : String} (h : IsLabelLine line) : ¬ IsFront line := by
  obtain ⟨addr, haddr, rfl⟩ := h
  exact not_isFront_label haddr

/-- One more line. The label begins a block, and the exits end it. -/
def InBlock.behind (inside : Prop) (line : String) : Prop :=
  inside ∧ ¬ Dump.exitsMark.toList <+: line.toList ∨ ¬ inside ∧ IsLabelLine line

/-- **Inside a block.** What follows these lines is behind a label whose exits did not come yet. -/
def InBlock (ls : List String) : Prop := ls.foldl InBlock.behind False

theorem inBlock_concat {ls : List String} {line : String} :
    InBlock (ls ++ [line]) ↔ InBlock.behind (InBlock ls) line := by
  rw [InBlock, List.foldl_append]
  rfl

/-! ### Sections -/

/-- **Section.** The lines that one entry is read from. -/
structure Section where
  /-- the lines in front of the label -/
  front : List String
  /-- the address on the line of the label -/
  addr : String
  /-- the lines between the label and the exits -/
  body : List String
  /-- what stands behind the mark on the line of the exits -/
  exits : String
  isFront : ∀ line ∈ front, IsFront line
  isLabel : IsLabel addr
  inside : ∀ line ∈ body, ¬ Dump.exitsMark.toList <+: line.toList

namespace Section

/-- The lines of a section. -/
def lines (s : Section) : List String :=
  s.front ++ (s.addr ++ ":") :: (s.body ++ [Dump.exitsMark ++ s.exits])

/-- The last number in front of the label. -/
def number? (s : Section) : Option Nat := lastNumber? s.front

end Section

/-- **Outline.** The sections of a text, and the lines behind the last one. -/
structure Outline where
  sections : List Section
  /-- the lines behind the last section -/
  rest : List String
  isFront : ∀ line ∈ rest, IsFront line

namespace Outline

/-- The lines of all sections, and the rest. -/
def lines (o : Outline) : List String := o.sections.flatMap Section.lines ++ o.rest

/-- The outline is that of a text. -/
def IsOf (o : Outline) (text : String) : Prop := o.lines = textLines text

/-- The labels, in the order of the text. -/
def labels (o : Outline) : List String := o.sections.map Section.addr

end Outline

/-! ### A text has one outline -/

/-- The first item without a property is the same however a list is cut there. -/
theorem append_cons_inj {α : Type} {P : α → Prop} {xs ys xs' ys' : List α} {a b : α}
    (hxs : ∀ x ∈ xs, P x) (ha : ¬ P a) (hxs' : ∀ x ∈ xs', P x) (hb : ¬ P b)
    (h : xs ++ a :: ys = xs' ++ b :: ys') : xs = xs' ∧ a = b ∧ ys = ys' := by
  induction xs generalizing xs' with
  | nil =>
    cases xs' with
    | nil => exact ⟨rfl, List.cons.inj h⟩
    | cons x xs' =>
      obtain ⟨rfl, -⟩ := List.cons.inj h
      exact absurd (hxs' a List.mem_cons_self) ha
  | cons x xs ih =>
    cases xs' with
    | nil =>
      obtain ⟨rfl, -⟩ := List.cons.inj h
      exact absurd (hxs x List.mem_cons_self) hb
    | cons x' xs' =>
      obtain ⟨rfl, htail⟩ := List.cons.inj h
      obtain ⟨rfl, hab⟩ := ih (fun y hy => hxs y (List.mem_cons_of_mem _ hy))
        (fun y hy => hxs' y (List.mem_cons_of_mem _ hy)) htail
      exact ⟨rfl, hab⟩

theorem isExits_append (text : String) :
    Dump.exitsMark.toList <+: (Dump.exitsMark ++ text).toList := by
  rw [String.toList_append]
  exact List.prefix_append _ _

/-- A section ends where its exits are. -/
theorem Section.lines_append_inj {s t : Section} {ls ms : List String}
    (h : s.lines ++ ls = t.lines ++ ms) : s = t ∧ ls = ms := by
  have hcut : ∀ (u : Section) (ls : List String), u.lines ++ ls =
      u.front ++ (u.addr ++ ":") :: (u.body ++ (Dump.exitsMark ++ u.exits) :: ls) := by
    intro u ls
    simp only [Section.lines, List.append_assoc, List.cons_append, List.nil_append]
  rw [hcut, hcut] at h
  obtain ⟨hfront, haddr, hmore⟩ := append_cons_inj s.isFront (not_isFront_label s.isLabel) t.isFront
    (not_isFront_label t.isLabel) h
  obtain ⟨hbody, hexits, hrest⟩ := append_cons_inj s.inside (not_not.2 (isExits_append _)) t.inside
    (not_not.2 (isExits_append _)) hmore
  obtain rfl := hrest
  refine ⟨?_, rfl⟩
  cases s
  cases t
  obtain rfl := (String.append_left_inj _).1 haddr
  obtain rfl := (String.append_right_inj _).1 hexits
  cases hfront
  cases hbody
  rfl

/-- No rest starts with a section. -/
theorem Section.lines_append_ne {s : Section} {ls rest : List String}
    (hrest : ∀ line ∈ rest, IsFront line) : rest ≠ s.lines ++ ls := by
  rintro rfl
  refine not_isFront_label s.isLabel (hrest _ ?_)
  simp [Section.lines]

/-- **A text has one outline at most.** -/
theorem Outline.lines_injective : Function.Injective Outline.lines := by
  rintro ⟨ss, rest, hrest⟩ ⟨ts, rest', hrest'⟩ h
  change ss.flatMap Section.lines ++ rest = ts.flatMap Section.lines ++ rest' at h
  induction ss generalizing ts with
  | nil =>
    cases ts with
    | nil =>
      obtain rfl : rest = rest' := h
      rfl
    | cons t ts =>
      rw [List.flatMap_cons, List.append_assoc] at h
      exact absurd h (Section.lines_append_ne hrest)
  | cons s ss ih =>
    cases ts with
    | nil =>
      rw [List.flatMap_cons, List.append_assoc] at h
      exact absurd h.symm (Section.lines_append_ne hrest')
    | cons t ts =>
      rw [List.flatMap_cons, List.flatMap_cons, List.append_assoc, List.append_assoc] at h
      obtain ⟨rfl, hmore⟩ := Section.lines_append_inj h
      obtain ⟨rfl, rfl⟩ := Outline.mk.inj (ih ts hmore)
      rfl

end FlowText
