import FlowText.Proofs.DumpText
import FlowText.Proofs.ExitsText

/-!
# How the lines of a dump are cut

A dump is cut into the lines that it was written from (`View.Legible.lines_dump`), but for a
carriage return at the end of a verbatim text. No other line ends with one: the rest of a dump is
made of plain text, and of addresses between marks.

* `Stays` — a line that is cut off as it was written.
* `View.Legible.stays_iff` — all lines of a dump stay if and only if its verbatim texts end plain.
-/

namespace FlowText

/-- **Stays.** The line has no line feed in it, and no carriage return at its end. -/
structure Stays (line : String) : Prop where
  one_line : '\n' ∉ line.toList
  ends : line.toList.getLast? ≠ some '\r'

/-- A line that stays is not cut. -/
theorem Stays.dropReturn_eq {line : String} (h : Stays line) :
    dropReturn line.toList = line.toList :=
  dropReturn_eq_self_iff.2 h.ends

/-- Plain text is one line. -/
theorem Plain.one_line {s : String} (h : Plain s) : '\n' ∉ s.toList := fun hm =>
  absurd (h '\n' hm) (by decide)

/-- Plain text stays. -/
theorem Plain.stays {s : String} (h : Plain s) : Stays s :=
  ⟨h.one_line, fun hl => absurd (h '\r' (List.mem_of_getLast? hl)) (by decide)⟩

/-! ### Text between marks -/

/-- Two texts on one line are on one line. -/
theorem one_line_append {s t : String} (hs : '\n' ∉ s.toList) (ht : '\n' ∉ t.toList) :
    '\n' ∉ (s ++ t).toList := by
  rw [String.toList_append, List.mem_append, not_or]
  exact ⟨hs, ht⟩

/-- A plain mark at the end keeps a line as it is. -/
theorem stays_append {s mark : String} (hs : '\n' ∉ s.toList) (hm : Stays mark) (hne : mark ≠ "") :
    Stays (s ++ mark) := by
  refine ⟨one_line_append hs hm.one_line, ?_⟩
  have hne' : mark.toList ≠ [] := fun hnil => hne (String.ext hnil)
  rw [String.toList_append, List.getLast?_append_of_ne_nil _ hne']
  exact hm.ends

/-- So are any number of texts, with a text between them. -/
theorem one_line_intercalate {sep : String} {texts : List String} (hs : '\n' ∉ sep.toList)
    (h : ∀ t ∈ texts, '\n' ∉ t.toList) : '\n' ∉ (sep.intercalate texts).toList := by
  induction texts with
  | nil =>
    rw [String.intercalate_nil]
    decide
  | cons t texts ih =>
    have ht := h t List.mem_cons_self
    have htail := ih fun u hu => h u (List.mem_cons_of_mem _ hu)
    cases texts with
    | nil =>
      rw [String.intercalate_singleton]
      exact ht
    | cons u texts =>
      rw [String.intercalate_cons_cons]
      exact one_line_append (one_line_append ht hs) htail

/-- A literal has the line feeds of the text that it holds, and no others. -/
theorem one_line_encode {s : String} (h : '\n' ∉ s.toList) : '\n' ∉ (Quoted.encode s).toList := by
  rw [Exits.toList_encode, List.mem_cons, List.mem_append, List.mem_singleton]
  rintro (hq | hm | hq)
  · cases hq
  · obtain ⟨c, hc, he⟩ := List.mem_flatMap.1 hm
    rw [Quoted.encodeChar] at he
    split at he
    · rcases List.mem_cons.1 he with he | he
      · cases he
      · exact h (List.mem_singleton.1 he ▸ hc)
    · exact h (List.mem_singleton.1 he ▸ hc)
  · cases hq

/-! ### Lines around a block -/

namespace View

variable {v : View} {a : String}

/-- The line of predecessors stays if they take one line each. -/
theorem stays_predText (h : ∀ b ∈ v.pred a, '\n' ∉ b.toList) : Stays (v.predText a) := by
  refine stays_append (one_line_append (by decide) ?_) (Plain.stays (by decide)) (by decide)
  refine one_line_intercalate (by decide) fun t ht => ?_
  obtain ⟨b, hb, rfl⟩ := List.mem_map.1 ht
  exact one_line_encode (h b ((List.mergeSort_perm _ _).mem_iff.1 hb))

/-- The line of the number stays. -/
theorem stays_numberLines : ∀ line ∈ v.numberLines a, Stays line := by
  intro line hl
  rw [numberLines] at hl
  split at hl
  · obtain rfl := List.mem_singleton.1 hl
    exact ((show Plain (Dump.numberMark ++ " ") by decide).append (plain_unsigned .dec _)).stays
  · cases hl

/-- A label stays. -/
theorem stays_label (h : '\n' ∉ a.toList) : Stays (a ++ ":") :=
  stays_append h (Plain.stays (by decide)) (by decide)

/-- The line of exits stays if its targets take one line each, and its conditions can be read. -/
theorem stays_exitsText (hs : ∀ b ∈ v.succ a, '\n' ∉ b.toList)
    (hc : ∀ b ∈ v.succ a, ∀ c ∈ v.edgeCond? a b, c.Readable) : Stays (v.exitsText a) := by
  have hitem : ∀ t ∈ (v.exits a).map Exits.exitText, '\n' ∉ t.toList := by
    intro t ht
    obtain ⟨x, hx, rfl⟩ := List.mem_map.1 ht
    obtain ⟨b, hb, rfl⟩ := List.mem_map.1 hx
    have htarget := one_line_encode (hs b hb)
    cases hcond : v.edgeCond? a b with
    | none =>
      exact one_line_append (one_line_append (by decide) htarget) (by decide)
    | some c =>
      have hplain : '\n' ∉ (Quoted.encode c.text).toList :=
        one_line_encode (hc b hb c hcond).plain.one_line
      exact one_line_append (one_line_append (one_line_append
        (one_line_append (by decide) hplain) (by decide)) htarget) (by decide)
  have htext : v.exitsText a = Dump.exitsMark ++ " " ++ "[" ++
      ", ".intercalate ((v.exits a).map Exits.exitText) ++ "]" := by
    simp only [exitsText, Exits.text, String.append_assoc]
  rw [htext]
  exact stays_append (one_line_append (by decide) (one_line_intercalate (by decide) hitem))
    (Plain.stays (by decide)) (by decide)

end View

/-! ### Lines of instructions -/

/-- The line of an instruction that can be read is plain. -/
theorem Operation.Readable.plain_line {o : Operation} (h : o.Readable) : Plain o.line := by
  obtain ⟨form, hf⟩ := h.exists_form
  rw [line_of_form hf]
  exact h.plain hf

namespace Inst.Legible

variable {i : Inst}

/-- What can be read takes one line. -/
theorem one_line (h : i.Legible) : '\n' ∉ i.line.toList := by
  rcases h.body with hr | ⟨t, ht, hv, -⟩
  · exact hr.plain_line.one_line
  · rw [line_of_verbatim? ht]
    exact hv.one_line

/-- The line of an instruction ends plain if its verbatim text does. -/
theorem stays_line_iff (h : i.Legible) : Stays i.line ↔ i.EndsPlain := by
  rcases h.body with hr | ⟨t, ht, hv, -⟩
  · refine ⟨fun _ t ht => ?_, fun _ => hr.plain_line.stays⟩
    rw [hr.verbatim?_eq_none] at ht
    cases ht
  · rw [line_of_verbatim? ht]
    -- the line is the text itself, and it has no line feed in it
    refine ⟨fun hs u hu => ?_, fun hp => ⟨hv.one_line, hp t ht⟩⟩
    obtain rfl := Option.some.inj (ht.symm.trans hu)
    exact hs.ends

/-- The lines in front of the last one of an instruction stay. -/
theorem mem_lines (h : i.Legible) {line : String} (hl : line ∈ i.lines) :
    line = i.line ∨ Stays line := by
  rw [Inst.lines] at hl
  rcases h.origins with ho | ⟨p, ho, hp⟩
  · rw [ho] at hl
    exact .inl (List.mem_singleton.1 hl)
  · rw [ho] at hl
    rcases List.mem_cons.1 hl with rfl | hl
    · exact .inr ((show Plain Dump.originMark by decide).append hp.plain_line).stays
    · exact .inl (List.mem_singleton.1 hl)

end Inst.Legible

/-- The last line of an instruction is its own. -/
theorem Inst.line_mem_lines (i : Inst) : i.line ∈ i.lines := by
  rw [Inst.lines]
  split <;> simp

/-! ### Lines of a dump -/

namespace View

variable {v : View}

/-- Every line of a dump is blank, or it is one of an entry. -/
theorem mem_lines {line : String} (h : line ∈ v.lines) :
    line = "" ∨ ∃ a ∈ v.addrs, line ∈ v.entryLines a := by
  rw [lines] at h
  split at h
  · cases h
  · next first more ha =>
    rcases List.mem_append.1 h with h | h
    · exact .inr ⟨first, ha ▸ List.mem_cons_self, h⟩
    · obtain ⟨a, hm, h⟩ := List.mem_flatMap.1 h
      refine (List.mem_cons.1 h).imp_right fun h => ⟨a, ?_, h⟩
      exact ha ▸ List.mem_cons_of_mem _ hm

/-- The lines of an entry are lines of the dump. -/
theorem mem_lines_of_mem_entryLines {a : String} (ha : a ∈ v.addrs) {line : String}
    (h : line ∈ v.entryLines a) : line ∈ v.lines := by
  rw [lines]
  split
  · next hnil =>
    rw [hnil] at ha
    cases ha
  · next first more hcons =>
    rw [hcons] at ha
    rcases List.mem_cons.1 ha with rfl | ha
    · exact List.mem_append_left _ h
    · exact List.mem_append_right _ (List.mem_flatMap.2 ⟨a, ha, List.mem_cons_of_mem _ h⟩)

/-- Addresses of successors take one line. -/
theorem Legible.one_line_succ (hl : v.Legible) (hc : v.Coherent) {a : String} (ha : a ∈ v.addrs) :
    ∀ b ∈ v.succ a, '\n' ∉ b.toList :=
  fun b hb => hl.one_line b (hc.succ_mem a ha b hb)

/-- Addresses of predecessors take one line. -/
theorem Legible.one_line_pred (hl : v.Legible) (hc : v.Coherent) {a : String} (ha : a ∈ v.addrs) :
    ∀ b ∈ v.pred a, '\n' ∉ b.toList :=
  fun b hb => hl.one_line b (List.mem_filter.1 ((hc.pred_perm a ha).mem_iff.1 hb)).1

/-- A line of an entry stays, unless it is the line of an instruction. -/
theorem Legible.mem_entryLines (hl : v.Legible) (hc : v.Coherent) {a : String} (ha : a ∈ v.addrs)
    {line : String} (h : line ∈ v.entryLines a) :
    Stays line ∨ ∃ b ∈ v.block? a, ∃ i ∈ b.insts, line = i.line := by
  rcases List.mem_cons.1 h with rfl | h
  · exact .inl (stays_predText (hl.one_line_pred hc ha))
  rcases List.mem_append.1 h with h | h
  · exact .inl (stays_numberLines line h)
  rcases List.mem_cons.1 h with rfl | h
  · exact .inl (stays_label (hl.one_line a ha))
  rcases List.mem_append.1 h with h | h
  · rw [bodyLines] at h
    cases hb : v.block? a with
    | none =>
      rw [hb] at h
      obtain rfl := List.mem_singleton.1 h
      exact .inl (Plain.stays (by decide))
    | some b =>
      rw [hb] at h
      obtain ⟨i, hi, h⟩ := List.mem_flatMap.1 h
      rcases ((hl.block a ha b hb).each i hi).mem_lines h with rfl | hs
      · exact .inr ⟨b, rfl, i, hi, rfl⟩
      · exact .inl hs
  · obtain rfl := List.mem_singleton.1 h
    exact .inl (stays_exitsText (hl.one_line_succ hc ha) (hl.cond a ha))

/-- No line of a dump has a line feed in it. -/
theorem Legible.one_line_lines (hl : v.Legible) (hc : v.Coherent) :
    ∀ line ∈ v.lines, '\n' ∉ line.toList := by
  intro line h
  rcases mem_lines h with rfl | ⟨a, ha, h⟩
  · decide
  · rcases hl.mem_entryLines hc ha h with hs | ⟨b, hb, i, hi, rfl⟩
    · exact hs.one_line
    · exact ((hl.block a ha b hb).each i hi).one_line

/-- **All lines of a dump stay** if and only if its verbatim texts end plain. -/
theorem Legible.stays_iff (hl : v.Legible) (hc : v.Coherent) :
    (∀ line ∈ v.lines, Stays line) ↔ v.EndsPlain := by
  constructor
  · intro h a ha b hb i hi
    refine ((hl.block a ha b hb).each i hi).stays_line_iff.1 (h _ ?_)
    refine mem_lines_of_mem_entryLines ha ?_
    have hbody : i.line ∈ v.bodyLines a := by
      rw [bodyLines, Option.mem_def.1 hb]
      exact List.mem_flatMap.2 ⟨i, hi, i.line_mem_lines⟩
    exact List.mem_cons_of_mem _ (List.mem_append_right _ (List.mem_cons_of_mem _
      (List.mem_append_left _ hbody)))
  · intro h line hline
    rcases mem_lines hline with rfl | ⟨a, ha, hline⟩
    · exact Plain.stays (by decide)
    · rcases hl.mem_entryLines hc ha hline with hs | ⟨b, hb, i, hi, rfl⟩
      · exact hs
      · exact ((hl.block a ha b hb).each i hi).stays_line_iff.2 (h a ha b hb i hi)

/-- **The lines of a dump**, once it is cut again. -/
theorem Legible.lines_dump (hl : v.Legible) (hc : v.Coherent) :
    FlowText.lines (unlines v.lines).toList = v.lines.map fun line => dropReturn line.toList :=
  lines_unlines (hl.one_line_lines hc)

/-- A dump in which no line ends with a carriage return is read as the lines that were written. -/
theorem Legible.lines_dump_of_endsPlain (hl : v.Legible) (hc : v.Coherent) (hp : v.EndsPlain) :
    FlowText.lines (unlines v.lines).toList = v.lines.map String.toList := by
  rw [hl.lines_dump hc]
  exact List.map_congr_left fun line h => ((hl.stays_iff hc).2 hp line h).dropReturn_eq

end View

end FlowText
