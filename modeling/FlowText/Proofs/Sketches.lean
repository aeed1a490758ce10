import FlowText.Drawing
import FlowText.Proofs.Labels
import FlowText.Proofs.DumpLines

/-!
# What a drawing is made of

A sketch has all that the lines of a drawing tell of a graph, before it is put into words
(`Drawing.Sketch`). The drawing of a graph is the text of its sketch (`Cfg.draw_eq_sketch`).

Whatever the texts in a sketch are, its lines are lines (`Sketch.count_feeds`), its labels are
contained (`Sketch.contained`), and a reader of quoted strings finds the labels and the three fixed
strings, and nothing else (`Sketch.reads_text`).
-/

namespace FlowText

/-! ### Lines -/

/-- Every line ends with a line feed. -/
theorem unlines_eq_join (ls : List String) : unlines ls = String.join (ls.map (· ++ "\n")) := by
  induction ls with
  | nil => rfl
  | cons l ls ih => rw [unlines, ih, List.map_cons, String.join_cons]

theorem join_flatMap {α : Type} (f : α → List String) (l : List α) :
    String.join (l.flatMap f) = String.join (l.map fun a => String.join (f a)) := by
  induction l with
  | nil => rfl
  | cons a l ih => rw [List.flatMap_cons, List.map_cons, String.join_append, String.join_cons, ih]

/-- **In a line.** A text without line feeds in which just these strings are quoted. -/
structure InLine (text : String) (strings : List String) : Prop where
  one_line : '\n' ∉ text.toList
  reads : Label.Reads text.toList (strings.map String.toList)

namespace InLine

variable {s t before content : String} {ss ts : List String}

/-- A text without quotes has no quoted strings. -/
theorem plain (hfeed : '\n' ∉ t.toList) (hquote : '\x22' ∉ t.toList) : InLine t [] :=
  ⟨hfeed, .of_not_mem hquote⟩

/-- Texts in a row. -/
theorem append (hs : InLine s ss) (ht : InLine t ts) : InLine (s ++ t) (ss ++ ts) := by
  refine ⟨one_line_append hs.one_line ht.one_line, ?_⟩
  rw [String.toList_append, List.map_append]
  exact hs.reads.append ht.reads

/-- What is set to a quoted text is one quoted string. -/
theorem setting (hb : InLine before []) (h : Label.Contained content.toList) :
    InLine (before ++ "\x22" ++ content ++ "\x22") [content] := by
  have htext : (before ++ "\x22" ++ content ++ "\x22").toList =
      before.toList ++ ('\x22' :: content.toList ++ ['\x22']) := by simp
  refine ⟨one_line_append (one_line_append (one_line_append hb.one_line (by decide)) h.no_feed)
    (by decide), ?_⟩
  rw [htext]
  exact hb.reads.append (.quoted h)

/-- Each line has its line feed, and no other. -/
theorem count_unlines {ls : List String} {sss : List (List String)}
    (h : List.Forall₂ InLine ls sss) : (unlines ls).toList.count '\n' = ls.length := by
  induction h with
  | nil => rfl
  | cons hl _ ih =>
    rw [unlines, String.toList_append, String.toList_append, List.count_append,
      List.count_append, ih, List.count_eq_zero_of_not_mem hl.one_line, List.length_cons]
    exact Nat.add_comm _ _

/-- Lines that are right one by one are right together. -/
theorem map {α : Type} {line : α → String} {strings : α → List String} {items : List α}
    (h : ∀ a ∈ items, InLine (line a) (strings a)) :
    List.Forall₂ InLine (items.map line) (items.map strings) := by
  rw [List.forall₂_map_left_iff, List.forall₂_map_right_iff, List.forall₂_same]
  exact h

/-- The strings of the lines are read one line behind the other. -/
theorem reads_unlines {ls : List String} {sss : List (List String)}
    (h : List.Forall₂ InLine ls sss) :
    Label.Reads (unlines ls).toList (sss.flatten.map String.toList) := by
  induction h with
  | nil => exact .nil
  | cons hl _ ih =>
    have hfeed : Label.Reads "\n".toList [] := .of_not_mem (by decide)
    rw [unlines, String.toList_append, String.toList_append, List.flatten_cons, List.map_append]
    exact List.append_nil (List.map _ _) ▸ (hl.reads.append hfeed).append ih

end InLine

namespace Drawing

/-! ### Sketches -/

/-- What the line of a node tells. -/
structure NodeLine where
  id : NodeId
  addr : String
  isEntry : Bool
  number : Option Nat
  /-- the texts of the instructions, as they are rendered -/
  texts : List String
  fill : Fill

/-- The label of a node. -/
def NodeLine.label (l : NodeLine) : String :=
  Label.escape l.addr ++ (if l.isEntry then " (entry)" else "") ++
    (match l.number with
      | some k => " #" ++ Radix.dec.unsigned k
      | none => "") ++ "\\l" ++ String.join (l.texts.map leftLine)

/-- The line of a node. -/
def NodeLine.text (l : NodeLine) : String :=
  "    " ++ name l.id ++ " [" ++ Drawing.label l.label ++ l.fill.text ++ "];"

/-- The label of an edge, if it has a condition. -/
def edgeLabel? (e : Edge (Option Cond)) : Option String := e.data.map fun c => Label.escape c.text

/-- The line of an edge. -/
def edgeText (e : Edge (Option Cond)) : String :=
  "    " ++ name e.source ++ " -> " ++ name e.target ++
    (match edgeLabel? e with
      | some l => " [" ++ label l ++ ", color=\x22darkgreen\x22]"
      | none => "") ++ ";"

/-- The label of the drawing, if there is a title. -/
def titleLabel? (title : Option String) : Option String :=
  title.map fun t => "CFG: " ++ Label.escape t

/-- **Sketch.** What a drawing tells: its title, and its nodes and edges in order. -/
structure Sketch where
  title : Option String
  nodes : List NodeLine
  edges : List (Edge (Option Cond))

namespace Sketch

variable (s : Sketch)

/-- The lines in front of the nodes. -/
def head : List String :=
  "digraph CFG \x7b" :: ((titleLabel? s.title).toList.map fun l => "    " ++ label l ++ ";") ++
    ["    labelloc=t;", "    node [shape=box, fontname=\x22Courier\x22, fontsize=10];",
      "    edge [fontname=\x22Courier\x22, fontsize=9];", ""]

/-- The lines of the drawing. -/
def lines : List String :=
  s.head ++ s.nodes.map NodeLine.text ++ [""] ++ s.edges.map edgeText ++ ["\x7d"]

/-- **The drawing.** -/
def text : String := unlines s.lines

/-- The labels: of the drawing, of the nodes and of the edges. -/
def labels : List String :=
  (titleLabel? s.title).toList ++ s.nodes.map NodeLine.label ++ s.edges.filterMap edgeLabel?

/-- The quoted strings of an edge. -/
def edgeStrings (e : Edge (Option Cond)) : List String :=
  match edgeLabel? e with
  | some l => [l, "darkgreen"]
  | none => []

/-- The quoted strings of each line in front of the nodes. -/
def headStrings : List (List String) :=
  [] :: ((titleLabel? s.title).toList.map fun l => [l]) ++ [[], ["Courier"], ["Courier"], []]

/-- The quoted strings of each line. -/
def lineStrings : List (List String) :=
  s.headStrings ++ s.nodes.map (fun l => [l.label]) ++ [[]] ++ s.edges.map edgeStrings ++ [[]]

/-- All quoted strings, in the order in which they stand in the drawing. -/
def strings : List String :=
  s.lineStrings.flatten

end Sketch

/-! ### Labels are contained -/

/-- A number is written in digits. -/
theorem not_mem_unsigned {c : Char} (h : Radix.dec.isDigit c = false) (n : Nat) :
    c ∉ (Radix.dec.unsigned n).toList := by
  intro hc
  rw [Radix.toList_unsigned] at hc
  have hdigit : Radix.dec.isDigit c = true :=
    Radix.isDigit_of_mem_toDigits (by simpa [Radix.mark] using hc)
  rw [h] at hdigit
  cases hdigit

/-- So it stays inside of its quotes. -/
theorem contained_unsigned (n : Nat) : Label.Contained (Radix.dec.unsigned n).toList := by
  refine .of_plain fun c hc => ⟨?_, ?_, ?_, ?_⟩ <;> rintro rfl <;>
    exact not_mem_unsigned (by decide) n hc

/-- **The title** stays inside of its quotes. -/
theorem contained_titleLabel {title : Option String} :
    ∀ l ∈ titleLabel? title, Label.Contained l.toList := by
  intro l hl
  obtain ⟨t, -, rfl⟩ := Option.map_eq_some_iff.1 hl
  rw [String.toList_append]
  exact (Label.Contained.of_plain (by simp)).append (Label.contained_escape t)

/-- The text of an instruction does, too. -/
theorem contained_leftLine (t : String) : Label.Contained (leftLine t).toList := by
  rw [leftLine, String.toList_append]
  exact (Label.contained_escape t).append (.escaped (by decide))

/-- **The label of a node** stays inside of its quotes. -/
theorem NodeLine.contained_label (l : NodeLine) : Label.Contained l.label.toList := by
  have hentry : Label.Contained (if l.isEntry then " (entry)" else "").toList := by
    cases l.isEntry <;> exact .of_plain (by simp)
  have hnumber : Label.Contained (match l.number with
      | some k => " #" ++ Radix.dec.unsigned k
      | none => "").toList := by
    cases l.number with
    | none => exact .nil
    | some k =>
      rw [String.toList_append]
      exact (Label.Contained.of_plain (by simp)).append (contained_unsigned k)
  have htexts (ts : List String) : Label.Contained (String.join (ts.map leftLine)).toList := by
    induction ts with
    | nil => exact .nil
    | cons t ts ih =>
      rw [List.map_cons, String.join_cons, String.toList_append]
      exact (contained_leftLine t).append ih
  rw [label]
  simp only [String.toList_append]
  exact ((((Label.contained_escape l.addr).append hentry).append hnumber).append
    (.escaped (by decide))).append (htexts l.texts)

/-- **The label of an edge** stays inside of its quotes. -/
theorem contained_edgeLabel {e : Edge (Option Cond)} :
    ∀ l ∈ edgeLabel? e, Label.Contained l.toList := by
  intro l hl
  obtain ⟨c, -, rfl⟩ := Option.map_eq_some_iff.1 hl
  exact Label.contained_escape c.text

/-- **Contained.** No text in a sketch can end a label. -/
theorem Sketch.contained (s : Sketch) : ∀ l ∈ s.labels, Label.Contained l.toList := by
  intro l hl
  rw [labels, List.mem_append, List.mem_append] at hl
  rcases hl with (hl | hl) | hl
  · exact contained_titleLabel l (by simpa using hl)
  · obtain ⟨n, -, rfl⟩ := List.mem_map.1 hl
    exact n.contained_label
  · obtain ⟨e, -, he⟩ := List.mem_filterMap.1 hl
    exact contained_edgeLabel l he

/-! ### Lines and quoted strings -/

theorem name_eq (v : NodeId) : name v = "B" ++ Radix.dec.unsigned v.index := rfl

/-- The name of a node has no quotes. -/
theorem inLine_name (v : NodeId) : InLine (name v) [] := by
  rw [name_eq]
  exact (InLine.plain (by decide) (by decide)).append
    (.plain (not_mem_unsigned (by decide) v.index) (not_mem_unsigned (by decide) v.index))

/-- A label has its content quoted. -/
theorem inLine_label {content : String} (h : Label.Contained content.toList) :
    InLine (label content) [content] := by
  have hmark : "label=\x22" = "label=" ++ "\x22" := by decide
  rw [label, hmark]
  exact .setting (.plain (by decide) (by decide)) h

/-- **The line of a node** quotes its label only. -/
theorem NodeLine.inLine_text (l : NodeLine) : InLine l.text [l.label] := by
  have hindent : InLine "    " [] := .plain (by decide) (by decide)
  have hopen : InLine " [" [] := .plain (by decide) (by decide)
  have hclose : InLine "];" [] := .plain (by decide) (by decide)
  have hfill : InLine l.fill.text [] := by
    cases l.fill <;> exact .plain (by decide) (by decide)
  exact ((((hindent.append (inLine_name l.id)).append hopen).append
    (inLine_label l.contained_label)).append hfill).append hclose

/-- **The line of an edge** quotes its label and a colour, if there is a condition. -/
theorem inLine_edgeText (e : Edge (Option Cond)) : InLine (edgeText e) (Sketch.edgeStrings e) := by
  have hindent : InLine "    " [] := .plain (by decide) (by decide)
  have harrow : InLine " -> " [] := .plain (by decide) (by decide)
  have hend : InLine ";" [] := .plain (by decide) (by decide)
  have hends :=
    ((hindent.append (inLine_name e.source)).append harrow).append (inLine_name e.target)
  rw [edgeText, Sketch.edgeStrings]
  cases he : edgeLabel? e with
  | none =>
    have hnone : InLine "" [] := .plain (by decide) (by decide)
    exact (hends.append hnone).append hend
  | some l =>
    have hopen : InLine " [" [] := .plain (by decide) (by decide)
    have hcolor : InLine (", color=" ++ "\x22" ++ "darkgreen" ++ "\x22") ["darkgreen"] :=
      .setting (.plain (by decide) (by decide)) (.of_plain (by simp))
    have hclose : InLine "]" [] := .plain (by decide) (by decide)
    exact (hends.append ((hopen.append (inLine_label (contained_edgeLabel l he))).append
      (hcolor.append hclose))).append hend

namespace Sketch

variable (s : Sketch)

/-- **The lines in front** quote the title and two fonts. -/
theorem inLine_head : List.Forall₂ InLine s.head s.headStrings := by
  have hfirst : InLine "digraph CFG \x7b" [] := .plain (by decide) (by decide)
  have htitle : ∀ l ∈ (titleLabel? s.title).toList, InLine ("    " ++ label l ++ ";") [l] := by
    intro l hl
    have hlabel := inLine_label (contained_titleLabel l (Option.mem_toList.1 hl))
    have hindent : InLine "    " [] := .plain (by decide) (by decide)
    exact (hindent.append hlabel).append (.plain (by decide) (by decide))
  have hplace : InLine "    labelloc=t;" [] := .plain (by decide) (by decide)
  have hnode : "    node [shape=box, fontname=\x22Courier\x22, fontsize=10];" =
      "    node [shape=box, fontname=" ++ "\x22" ++ "Courier" ++ "\x22" ++
        ", fontsize=10];" := by decide
  have hedge : "    edge [fontname=\x22Courier\x22, fontsize=9];" =
      "    edge [fontname=" ++ "\x22" ++ "Courier" ++ "\x22" ++ ", fontsize=9];" := by decide
  have hfont {before after : String} (hb : InLine before []) (ha : InLine after []) :
      InLine (before ++ "\x22" ++ "Courier" ++ "\x22" ++ after) ["Courier"] :=
    (hb.setting (.of_plain (by simp))).append ha
  have hblank : InLine "" [] := .plain (by decide) (by decide)
  rw [head, hnode, hedge]
  exact List.rel_append (.cons hfirst (InLine.map htitle)) (.cons hplace
    (.cons (hfont (.plain (by decide) (by decide)) (.plain (by decide) (by decide)))
      (.cons (hfont (.plain (by decide) (by decide)) (.plain (by decide) (by decide)))
        (.cons hblank .nil))))

/-- **Lines.** Each is a line, and its quoted strings are known. -/
theorem inLine_lines : List.Forall₂ InLine s.lines s.lineStrings := by
  have hnodes := InLine.map fun l (_ : l ∈ s.nodes) => l.inLine_text
  have hedges := InLine.map fun e (_ : e ∈ s.edges) => inLine_edgeText e
  have hblank : List.Forall₂ InLine [""] [[]] := .cons (.plain (by decide) (by decide)) .nil
  have hclose : List.Forall₂ InLine ["\x7d"] [[]] := .cons (.plain (by decide) (by decide)) .nil
  exact List.rel_append (List.rel_append
    (List.rel_append (List.rel_append s.inLine_head hnodes) hblank) hedges)
    hclose

/-- There is a line for each node and each edge, and a few more. -/
theorem length_lines :
    s.lines.length = 7 + s.nodes.length + s.edges.length + s.title.toList.length := by
  have htitle : (titleLabel? s.title).toList.length = s.title.toList.length := by
    cases h : s.title <;> rfl
  simp [lines, head, htitle]
  omega

/-- **One line feed for each line.** -/
theorem count_feeds : s.text.toList.count '\n' =
    7 + s.nodes.length + s.edges.length + s.title.toList.length :=
  (InLine.count_unlines s.inLine_lines).trans s.length_lines

/-- **Nothing but the labels** and the fixed strings is quoted. -/
theorem reads_text : Label.Reads s.text.toList (s.strings.map String.toList) :=
  InLine.reads_unlines s.inLine_lines

end Sketch

end Drawing

end FlowText
