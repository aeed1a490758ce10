import FlowText.Proofs.DumpText
import FlowText.Proofs.LineReader
import FlowText.Proofs.ExitsText

/-!
# The lines of instructions are read as these instructions

One lemma for each kind of line, first between entries and then inside one (`next_pred`,
`next_number`, `next_label`, `OpenEntry.next_origin`, `OpenEntry.next_inst`), and from them the
lines of an instruction (`read_inst`) and of a list of instructions (`read_insts`). What is read
respells what was written.
-/

namespace FlowText

open Reading

/-! ### Marks -/

/-- Nothing stands behind a mark that is not there. -/
theorem behind?_eq_none {mark : String} {line : List Char} (h : ¬ mark.toList <+: line) :
    behind? mark line = none := by
  cases hb : behind? mark line with
  | none => rfl
  | some rest => exact absurd ⟨rest, (dropStart?_eq_some_iff.1 hb).symm⟩ h

/-- Behind a mark stands the rest of the line. -/
theorem behind?_append (mark : String) (rest : List Char) :
    behind? mark (mark.toList ++ rest) = some rest :=
  dropStart?_eq_some_iff.2 rfl

theorem dropBlanks_of_all {cs : List Char} (h : ∀ c ∈ cs, isBlank c = false) :
    dropBlanks cs = cs := by
  cases cs with
  | nil => rfl
  | cons c cs => exact dropBlanks_cons (h c List.mem_cons_self) cs

/-- A blank in front of a text without blanks is trimmed away. -/
theorem trim_blank_append {cs : List Char} (h : ∀ c ∈ cs, isBlank c = false) :
    trim (' ' :: cs) = cs := by
  have hr : ∀ c ∈ cs.reverse, isBlank c = false := fun c hc => h c (List.mem_reverse.1 hc)
  rw [trim, Exits.dropBlanks_blank, dropBlanks_of_all h, dropBlanks_of_all hr, List.reverse_reverse]

/-- Trimming takes away nothing but blanks. -/
theorem mem_trim {cs : List Char} {c : Char} (hc : c ∈ cs) (hb : isBlank c = false) :
    c ∈ trim cs := by
  have hdrop : ∀ {ds : List Char}, c ∈ ds → c ∈ dropBlanks ds := by
    intro ds hd
    rw [← List.takeWhile_append_dropWhile (p := isBlank) (l := ds), List.mem_append] at hd
    rcases hd with hd | hd
    · have := List.mem_takeWhile_imp hd
      rw [hb] at this
      cases this
    · exact hd
  rw [trim, List.mem_reverse]
  exact hdrop (List.mem_reverse.2 (hdrop hc))

/-- A text is not trimmed away if it holds anything but blanks. -/
theorem isEmpty_trim {cs : List Char} {c : Char} (hc : c ∈ cs) (hb : isBlank c = false) :
    (trim cs).isEmpty = false :=
  List.isEmpty_eq_false_iff.2 (List.ne_nil_of_mem (mem_trim hc hb))

/-! ### Lines between entries -/

variable {r : Reading}

/-- Outside of entries a line is read as one between them. -/
theorem next_between (hr : r.current = none) (n : Nat) (line : List Char) :
    r.next n line = r.between n line := by
  rw [Reading.next, hr]

/-- A blank line between entries changes nothing. -/
theorem next_blank (hr : r.current = none) (n : Nat) : r.next n "".toList = .ok r := by
  rw [next_between hr]
  rfl

/-- Predecessors are not read. -/
theorem next_pred (hr : r.current = none) (n : Nat) {line : List Char}
    (h : Dump.predMark.toList <+: line) : r.next n line = .ok r := by
  obtain ⟨rest, rfl⟩ := h
  rw [next_between hr, between, behind?_append, Option.isSome_some, Bool.or_true, if_pos rfl]

/-- A number is read back from its digits. -/
theorem count?_toDigits {n : Nat} (h : n < wordLimit) : count? (Nat.toDigits 10 n) = some n := by
  have hdigit : ∀ c ∈ Nat.toDigits 10 n, Radix.dec.isDigit c = true :=
    fun c hc => Radix.isDigit_of_mem_toDigits (r := .dec) hc
  have hplus : (Nat.toDigits 10 n).head? ≠ some '+' := by
    intro hp
    have := hdigit '+' (List.mem_of_head? hp)
    revert this
    decide
  have hne : (Nat.toDigits 10 n).isEmpty = false := by
    cases hd : Nat.toDigits 10 n with
    | nil => exact absurd hd Nat.toDigits_ne_nil
    | cons => rfl
  have hall : (Nat.toDigits 10 n).all Radix.dec.isDigit = true := List.all_eq_true.2 hdigit
  have hvalue : Radix.dec.value (Nat.toDigits 10 n) = n := Radix.value_toDigits .dec n
  rw [count?, if_neg hplus]
  simp only [hne, hall, hvalue, h, Bool.not_true, Bool.or_false, if_true]
  rfl

/-- The line of a number says which number the next block has. -/
theorem next_number (hr : r.current = none) (n : Nat) {number : Nat} (h : number < wordLimit) :
    r.next n (Dump.numberMark ++ " " ++ Radix.dec.unsigned number).toList =
      .ok { r with number := some number } := by
  have hline : (Dump.numberMark ++ " " ++ Radix.dec.unsigned number).toList =
      Dump.numberMark.toList ++ ' ' :: Nat.toDigits 10 number := by
    rw [String.toList_append, String.toList_append, Radix.toList_unsigned, List.append_assoc]
    rfl
  have htrim : trim (' ' :: Nat.toDigits 10 number) = Nat.toDigits 10 number := by
    refine trim_blank_append fun c hc => ?_
    have hd :=
      isNameChar_iff.1 (isNameChar_of_isDigit (Radix.isDigit_of_mem_toDigits (r := .dec) hc))
    exact isBlank_eq_false (by omega) (by omega)
  have hpred : behind? Dump.predMark (Dump.numberMark.toList ++ ' ' :: Nat.toDigits 10 number) =
      none := rfl
  have hblank : (trim (Dump.numberMark.toList ++ ' ' :: Nat.toDigits 10 number)).isEmpty = false :=
    isEmpty_trim (c := '/') (by simp [Dump.numberMark]) (by decide)
  rw [next_between hr, hline, between, hpred, hblank, behind?_append]
  simp only [htrim, count?_toDigits h]
  rfl

theorem toList_append_colon (addr : String) : (addr ++ ":").toList = addr.toList ++ [':'] := by
  rw [String.toList_append]
  rfl

/-- A line with a colon is not blank. -/
theorem isEmpty_trim_colon (cs : List Char) : (trim (cs ++ [':'])).isEmpty = false :=
  isEmpty_trim (c := ':') (by simp) (by decide)

/-- A line is a label if it ends with a colon and starts with anything but a blank. -/
theorem label?_cons {c : Char} (cs : List Char) :
    label? (c :: cs ++ [':']) = if isBlank c then none else some (String.ofList (c :: cs)) := by
  rw [label?, dropEnding?_eq_some_iff.2 rfl]

/-- **A label** opens an entry, with the number that was read before. -/
theorem next_label (hr : r.current = none) (n : Nat) {addr : String} (h : IsLabel addr) :
    r.next n (addr ++ ":").toList =
      .ok { r with current := some { addr, start := n, number := r.number }, number := none } := by
  obtain ⟨hhead, hpred, hnumber⟩ := h
  have hlabel : label? (addr.toList ++ [':']) = some addr := by
    cases hc : addr.toList with
    | nil =>
      rw [hc] at hhead
      cases hhead
    | cons c cs =>
      rw [hc] at hhead
      have hb : ¬ isBlank c = true := by simpa using hhead
      rw [label?_cons, if_neg hb, ← hc, String.ofList_toList]
  rw [next_between hr, toList_append_colon, between, behind?_eq_none hpred, isEmpty_trim_colon,
    behind?_eq_none hnumber, hlabel]
  rfl

/-- A placeholder is no label. -/
theorem next_placeholder_ne_ok (hr : r.current = none) (n : Nat) (r' : Reading) :
    r.next n Dump.placeholder.toList ≠ .ok r' := by
  rw [next_between hr]
  exact nofun

/-- What holds a colon is no number. -/
theorem count?_eq_none_of_colon {cs : List Char} (h : ':' ∈ cs) : count? cs = none := by
  have hmem : ':' ∈ (if cs.head? = some '+' then cs.tail else cs) := by
    split
    · next hp =>
      cases cs with
      | nil => cases hp
      | cons c cs =>
        obtain rfl : c = '+' := by simpa using hp
        exact (List.mem_cons.1 h).resolve_left (by decide)
    · exact h
  have hall : ¬ (if cs.head? = some '+' then cs.tail else cs).all Radix.dec.isDigit = true := by
    intro ha
    have := List.all_eq_true.1 ha ':' hmem
    revert this
    decide
  rw [count?]
  simp [hall]

/-- What is no label is taken for predecessors, or the reading fails. -/
theorem next_of_not_isLabel (hr : r.current = none) (n : Nat) {addr : String}
    (h : ¬ IsLabel addr) {r' : Reading} (hn : r.next n (addr ++ ":").toList = .ok r') : r' = r := by
  rw [toList_append_colon] at hn
  by_cases hpred : Dump.predMark.toList <+: addr.toList ++ [':']
  · rw [next_pred hr n hpred] at hn
    cases hn
    rfl
  rw [next_between hr, between, isEmpty_trim_colon, behind?_eq_none hpred] at hn
  by_cases hnumber : Dump.numberMark.toList <+: addr.toList ++ [':']
  · -- the colon at the end keeps what follows the mark from being a number
    obtain ⟨rest, hrest⟩ := hnumber
    have hcount : count? (trim rest) = none := by
      rcases List.eq_nil_or_concat rest with rfl | ⟨ds, c, rfl⟩
      · rfl
      · have hlast := congrArg List.getLast? hrest
        obtain rfl : c = ':' := by simpa using hlast
        exact count?_eq_none_of_colon (mem_trim (by simp) (by decide))
    rw [← hrest, behind?_append] at hn
    simp only [hcount] at hn
    cases hn
  · have hlabel : label? (addr.toList ++ [':']) = none := by
      cases hc : addr.toList with
      | nil => rfl
      | cons c cs =>
        have hb : isBlank c = true := by
          by_contra hne
          refine h ⟨?_, hpred, hnumber⟩
          rw [hc]
          simpa using hne
        rw [label?_cons, if_pos hb]
    rw [behind?_eq_none hnumber, hlabel] at hn
    cases hn

/-! ### Lines inside an entry -/

/-- **Respelling** of an instruction: of its operation and of every earlier stage. -/
structure Inst.Respells (j i : Inst) : Prop where
  op : j.toOperation.Respells i.toOperation
  origins : List.Forall₂ Operation.Respells j.origins i.origins

/-- Inside an entry, all but the line of exits is read by the entry. -/
theorem next_inside {o : OpenEntry} (hr : r.current = some o) (n : Nat) {line : List Char}
    (h : ¬ Dump.exitsMark.toList <+: line) :
    r.next n line = (o.next n line).map fun o => { r with current := some o } := by
  rw [Reading.next, hr]
  simp only [behind?_eq_none h]
  cases o.next n line <;> rfl

/-- The placeholder is no line of provenance. -/
theorem originOf?_placeholder : originOf? Dump.placeholder.toList = none := rfl

namespace OpenEntry

variable {o : OpenEntry}

/-- The same entry with other instructions so far, and another line that waits. -/
def holding (o : OpenEntry) (insts : List Inst) (waiting : Option (Inst × String)) : OpenEntry :=
  { o with insts, waiting }

/-- What an entry holds back goes to its instructions, and nothing else changes. -/
theorem flush_eq (o : OpenEntry) : o.flush = o.holding o.flush.insts none := by
  obtain ⟨addr, start, number, insts, missing, waiting⟩ := o
  cases waiting <;> rfl

theorem add_eq (o : OpenEntry) (i : Inst) (hw : o.waiting = none) :
    o.add i = { o with insts := o.insts ++ [i] } := by
  rw [add, hw]

/-- A line that is the origin of the next one. -/
theorem next_origin (hm : o.missing = false) (n : Nat) {text : String} {earlier : Inst}
    (h : originOf? text.toList = some earlier) :
    o.next n text.toList =
      .ok (o.holding o.flush.insts (some (earlier, text))) := by
  have hp : text ≠ Dump.placeholder := by
    rintro rfl
    rw [originOf?_placeholder] at h
    cases h
  rw [next, String.ofList_toList, if_neg (by simp [hm]), if_neg (by simp [hp]), h]
  simp only
  rw [flush_eq]
  rfl

/-- A line that is added as an instruction. -/
theorem next_inst (hm : o.missing = false) (n : Nat) {text : String}
    (hp : text = Dump.placeholder → o.insts ≠ [] ∨ o.waiting ≠ none)
    (h : originOf? text.toList = none) :
    o.next n text.toList = .ok (o.add (instOn text)) := by
  have hp' : ¬ (text = Dump.placeholder ∧ o.insts.isEmpty = true ∧ o.waiting.isNone = true) := by
    rintro ⟨ht, hi, hw⟩
    rcases hp ht with hi' | hw'
    · exact hi' (List.isEmpty_iff.1 hi)
    · exact hw' (Option.isNone_iff_eq_none.1 hw)
  rw [next, String.ofList_toList, if_neg (by simp [hm]), if_neg hp', h]

/-- The placeholder as the first line says that the block is missing. -/
theorem next_placeholder (hm : o.missing = false) (n : Nat) (hi : o.insts = [])
    (hw : o.waiting = none) :
    o.next n Dump.placeholder.toList = .ok { o with missing := true } := by
  rw [next, String.ofList_toList, if_neg (by simp [hm]),
    if_pos ⟨rfl, by rw [hi]; rfl, by rw [hw]; rfl⟩]

/-- Nothing may stand between the placeholder and the exits. -/
theorem next_missing (hm : o.missing = true) (n : Nat) (line : List Char) :
    o.next n line = .error (.parse n (.dump (.afterPlaceholder o.addr))) := by
  rw [next, if_pos hm]

end OpenEntry

/-! ### Lines of instructions -/

/-- A line that can be read is read as a respelling. -/
theorem Operation.Readable.exists_ofText {o : Operation} (h : o.Readable) :
    ∃ q, Inst.ofText o.line = .ok ⟨q, []⟩ ∧ q.Respells o := by
  obtain ⟨form, q, hf, ht, hq⟩ := h.ofText
  exact ⟨q, by rw [line_of_form hf, ht], hq⟩

/-- The line of an instruction is no line of provenance. -/
theorem originOf?_eq_none_of_ofText {s : String} {i : Inst} (h : Inst.ofText s = .ok i) :
    originOf? s.toList = none := by
  have hmark : ¬ Dump.originMark.toList <+: s.toList := by
    rintro ⟨rest, hs⟩
    exact ofText_ne_ok_of_slash hs.symm h
  rw [originOf?, behind?_eq_none hmark]
  rfl

/-- A line of provenance holds the instruction that stands behind its mark. -/
theorem originOf?_of_ofText {s : String} {i : Inst} (h : Inst.ofText s = .ok i) :
    originOf? (Dump.originMark ++ s).toList = some i := by
  rw [originOf?, String.toList_append, behind?_append, Option.bind_some, String.ofList_toList, h]
  rfl

namespace Inst.Legible

variable {i : Inst}

/-- The line of a legible instruction is read as an instruction that respells it. -/
theorem instOn_line (h : i.Legible) :
    ∃ q, instOn i.line = ⟨q, []⟩ ∧ q.Respells i.toOperation := by
  rcases h.body with hr | ⟨t, ht, hv, -⟩
  · obtain ⟨q, hq, hs⟩ := hr.exists_ofText
    exact ⟨q, by rw [instOn, hq], hs⟩
  · obtain ⟨hop, hd, ha⟩ := Operation.verbatim?_eq_some_iff.1 ht
    refine ⟨(Inst.literal t).toOperation, ?_, ?_, ?_⟩
    · rw [line_of_verbatim? ht, instOn]
      cases hi : Inst.ofText t with
      | ok j => exact absurd hi (hv.no_inst j)
      | error e => rfl
    · exact Operation.same_of_eq hop.symm hd.symm ha.symm
    · rw [form_of_verbatim? ht]
      rfl

/-- The line of an instruction is not taken for the line of exits. -/
theorem no_exits (h : i.Legible) : ¬ Dump.exitsMark.toList <+: i.line.toList := by
  rcases h.body with hr | ⟨t, ht, hv, -⟩
  · obtain ⟨q, hq, -⟩ := hr.exists_ofText
    rintro ⟨rest, hs⟩
    exact ofText_ne_ok_of_exits hs.symm hq
  · rw [line_of_verbatim? ht]
    exact hv.no_exits

/-- Only a dangling instruction has the line of an origin. -/
theorem originOf?_line (h : i.Legible) (hd : ¬ i.IsDangling) : originOf? i.line.toList = none := by
  rcases h.body with hr | ⟨t, ht, -, ho⟩
  · obtain ⟨q, hq, -⟩ := hr.exists_ofText
    exact originOf?_eq_none_of_ofText hq
  · have hnot : ¬ IsOriginLine t := by
      intro hline
      by_cases hor : i.origins = []
      · exact hd ⟨hor, t, ht, hline⟩
      · exact ho hor hline
    rw [line_of_verbatim? ht]
    simpa [IsOriginLine] using hnot

/-- Only a text that is kept as it is can look like the placeholder. -/
theorem line_eq_placeholder (h : i.Legible) (hp : i.line = Dump.placeholder) :
    i.verbatim? = some Dump.placeholder := by
  rcases h.body with hr | ⟨t, ht, -⟩
  · obtain ⟨q, hq, -⟩ := hr.exists_ofText
    rw [hp] at hq
    exact absurd hq ofText_ne_ok_of_placeholder
  · rw [← hp, line_of_verbatim? ht, ht]

end Inst.Legible

/-- One line is read in one step. -/
theorem readLines_singleton (n : Nat) (line : List Char) (r : Reading) :
    readLines n [line] r = r.next n line := by
  rw [readLines]
  cases r.next n line <;> rfl

/-- **An instruction is read.** What is read respells it and stands behind what was read before. If
a line waits afterwards, the instruction is dangling. -/
structure InstRead (o : OpenEntry) (i j : Inst) (done : List Inst)
    (waiting : Option (Inst × String)) : Prop where
  respells : j.Respells i
  insts : (o.holding done waiting).flush.insts = o.flush.insts ++ [j]
  dangling : waiting.isSome = true → i.IsDangling
  shown : done = [] → waiting ≠ none
  lines : ∀ r n, r.current = some o → readLines n (i.lines.map String.toList) r =
    .ok { r with current := some (o.holding done waiting) }

/-- The line of a dangling instruction waits, and is kept as it stands whatever comes next. -/
theorem read_dangling {i : Inst} (h : i.Legible) (hd : i.IsDangling) {o : OpenEntry}
    (hm : o.missing = false) : ∃ j done waiting, InstRead o i j done waiting := by
  obtain ⟨ho, t, ht, hline⟩ := hd
  obtain ⟨e, he⟩ := Option.isSome_iff_exists.1 hline
  have hl : i.line = t := line_of_verbatim? ht
  obtain ⟨hop, hdest, ha⟩ := Operation.verbatim?_eq_some_iff.1 ht
  refine ⟨.literal t, o.flush.insts, some (e, t), ⟨⟨⟨?_, ?_⟩, ?_⟩, rfl,
    fun _ => ⟨ho, t, ht, hline⟩, fun _ => Option.some_ne_none _, fun r n hr => ?_⟩⟩
  · exact Operation.same_of_eq hop.symm hdest.symm ha.symm
  · rw [form_of_verbatim? ht]
    rfl
  · rw [ho]
    exact .nil
  · rw [Inst.lines, ho, List.map_singleton, readLines_singleton, next_inside hr n h.no_exits, hl,
      OpenEntry.next_origin hm n he]
    rfl

/-- The only line of an instruction is added, if no line waits in front of it. -/
theorem read_single {i : Inst} (h : i.Legible) (ho : i.origins = []) (hd : ¬ i.IsDangling)
    {o : OpenEntry} (hm : o.missing = false) (hw : o.waiting = none)
    (hp : i.line = Dump.placeholder → o.insts ≠ []) :
    ∃ j done waiting, InstRead o i j done waiting := by
  obtain ⟨q, hq, hqs⟩ := h.instOn_line
  refine ⟨⟨q, []⟩, o.insts ++ [⟨q, []⟩], none, ⟨⟨hqs, ?_⟩, ?_, by simp, by simp,
    fun r n hr => ?_⟩⟩
  · rw [ho]
    exact .nil
  · change o.insts ++ _ = _
    rw [OpenEntry.flush, hw]
  · rw [Inst.lines, ho, List.map_singleton, readLines_singleton, next_inside hr n h.no_exits,
      OpenEntry.next_inst hm n (fun hline => .inl (hp hline)) (h.originOf?_line hd), hq,
      OpenEntry.add_eq o _ hw, ← hw]
    rfl

/-- The line of the earlier stage waits for the other one, which takes it as its origin. -/
theorem read_stages {i : Inst} (h : i.Legible) {p : Operation} (ho : i.origins = [p])
    (hp : p.Readable) {o : OpenEntry} (hm : o.missing = false) :
    ∃ j done waiting, InstRead o i j done waiting := by
  obtain ⟨q, hq, hqs⟩ := h.instOn_line
  obtain ⟨e, he, hes⟩ := hp.exists_ofText
  have hnd : ¬ i.IsDangling := by
    intro hd
    rw [hd.1] at ho
    cases ho
  have hfirst : ¬ Dump.exitsMark.toList <+: (Dump.originMark ++ p.line).toList := by
    rw [String.toList_append]
    rintro ⟨rest, hs⟩
    cases hs
  refine ⟨⟨q, [e]⟩, o.flush.insts ++ [⟨q, [e]⟩], none, ⟨⟨hqs, ?_⟩, rfl, by simp, by simp,
    fun r n hr => ?_⟩⟩
  · rw [ho]
    exact .cons hes .nil
  · have hstep := OpenEntry.next_origin hm n (originOf?_of_ofText he)
    rw [Inst.lines, ho, List.map_cons, readLines, next_inside hr n hfirst, hstep]
    -- the second line finds the first one waiting
    have hinst := OpenEntry.next_inst (o := o.holding o.flush.insts
      (some (⟨e, []⟩, Dump.originMark ++ p.line))) hm (n + 1)
      (fun _ => .inr (by simp [OpenEntry.holding])) (h.originOf?_line hnd)
    change readLines (n + 1) _ { r with current := some _ } = _
    rw [List.map_singleton, readLines_singleton, next_inside rfl (n + 1) h.no_exits, hinst, hq]
    rfl

/-- **The lines of an instruction.** A line that waits has to be one that the instruction leaves
alone: its first line is then the next origin. -/
theorem read_inst {i : Inst} (h : i.Legible) {o : OpenEntry} (hm : o.missing = false)
    (hw : o.waiting.isSome = true → i.IsMarked)
    (hp : o.insts = [] → o.waiting = none →
      ¬ (i.origins = [] ∧ i.verbatim? = some Dump.placeholder)) :
    ∃ j done waiting, InstRead o i j done waiting := by
  rcases h.origins with ho | ⟨p, ho, hpr⟩
  · by_cases hd : i.IsDangling
    · exact read_dangling h hd hm
    · have hwait : o.waiting = none := by
        rw [← Option.not_isSome_iff_eq_none]
        intro hsome
        rcases hw hsome with hne | hdang
        · exact hne ho
        · exact hd hdang
      exact read_single h ho hd hm hwait fun hline hnil =>
        hp hnil hwait ⟨ho, h.line_eq_placeholder hline⟩
  · exact read_stages h ho hpr hm

/-- **The lines of a list of instructions.** The induction carries that a line may wait only in
front of an instruction that is marked. -/
theorem read_insts {insts : List Inst} (h : LegibleList insts) {o : OpenEntry}
    (hm : o.missing = false) (hw : o.waiting.isSome = true → ∀ i ∈ insts.head?, i.IsMarked)
    (hp : o.insts = [] → o.waiting = none → ¬ Shadows insts) :
    ∃ js done waiting, List.Forall₂ Inst.Respells js insts ∧
      (o.holding done waiting).flush.insts = o.flush.insts ++ js ∧
      ∀ r n, r.current = some o →
        readLines n ((insts.flatMap Inst.lines).map String.toList) r =
          .ok { r with current := some (o.holding done waiting) } := by
  induction insts generalizing o with
  | nil =>
    refine ⟨[], o.insts, o.waiting, .nil, (List.append_nil _).symm, fun r n hr => ?_⟩
    obtain ⟨entries, current, number⟩ := r
    obtain rfl : current = some o := hr
    rfl
  | cons i insts ih =>
    have hi := h.each i List.mem_cons_self
    obtain ⟨j, done, waiting, hj⟩ := read_inst hi hm (fun hs => hw hs i rfl)
      (fun hnil hnone hshadow => hp hnil hnone ⟨i, rfl, hshadow⟩)
    have hrest : LegibleList insts :=
      ⟨fun k hk => h.each k (List.mem_cons_of_mem _ hk), h.chain.tail⟩
    -- what waits is a dangling instruction, and a marked one follows it
    have hmarked : waiting.isSome = true → ∀ k ∈ insts.head?, k.IsMarked := by
      intro hs k hk
      exact List.isChain_cons.1 h.chain |>.1 k hk (hj.dangling hs)
    obtain ⟨js, done', waiting', hjs, hdone', hread'⟩ := ih hrest (o := o.holding done waiting) hm
      hmarked (fun hnil hnone => absurd hnone (hj.shown hnil))
    refine ⟨j :: js, done', waiting', .cons hj.respells hjs, ?_, fun r n hr => ?_⟩
    · have he : (o.holding done' waiting').flush.insts =
          ((o.holding done waiting).holding done' waiting').flush.insts := rfl
      rw [he, hdone', hj.insts, List.append_assoc, List.singleton_append]
    · rw [List.flatMap_cons, List.map_append, readLines_append, hj.lines r n hr]
      exact hread' _ _ rfl

end FlowText
