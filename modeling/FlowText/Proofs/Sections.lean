import FlowText.Proofs.BlockLines

/-!
# Texts are read along their outlines

`Reading.Reads` lists what a line can do to what was read before it. From it follows where the
reading stands behind any lines (`Reading.Reaches`): behind some sections, each of which was read as
one entry, and inside the next section. So a text that is read has an outline (`exists_outline`).
-/

namespace FlowText

open Reading

/-! ### Lines as texts -/

theorem lines_eq_textLines (text : String) :
    lines text.toList = (textLines text).map String.toList := by
  rw [textLines, List.map_map]
  refine ((List.map_id _).symm.trans (List.map_congr_left fun l _ => ?_))
  exact (String.toList_ofList).symm

namespace Reading

variable {r r' : Reading} {n : Nat} {line : String}

/-! ### One line -/

/-- **What a line does.** -/
inductive Reads (n : Nat) (line : String) (r : Reading) : Reading → Prop
  | idle : r.current = none → IsIdle line → Reads n line r r
  | number {k} : r.current = none → numberOn? line = some k →
      Reads n line r { r with number := some k }
  | label {addr} : r.current = none → IsLabel addr → line = addr ++ ":" →
      Reads n line r
        { r with current := some { addr, start := n, number := r.number }, number := none }
  | inside {o o'} : r.current = some o → ¬ Dump.exitsMark.toList <+: line.toList →
      o.next n line.toList = .ok o' → Reads n line r { r with current := some o' }
  | exits {o text exits} : r.current = some o → line = Dump.exitsMark ++ text →
      Exits.read text.toList = .ok exits →
      Reads n line r { r with entries := r.entries ++ [o.flush.close exits n], current := none }

theorem reads_of_between (hc : r.current = none) (h : r.between n line.toList = .ok r') :
    Reads n line r r' := by
  rw [between] at h
  split at h
  · next hskip =>
    cases h
    refine .idle hc ((Bool.or_eq_true_iff.1 hskip).imp_right fun hp => ?_)
    obtain ⟨rest, hrest⟩ := Option.isSome_iff_exists.1 hp
    exact ⟨rest, (dropStart?_eq_some_iff.1 hrest).symm⟩
  next hskip =>
  have hpred : ¬ Dump.predMark.toList <+: line.toList := by
    rintro ⟨rest, hrest⟩
    exact hskip (by rw [← hrest, behind?_append, Option.isSome_some, Bool.or_true])
  split at h
  · next text htext =>
    split at h
    · next k hk =>
      cases h
      refine .number hc ?_
      rw [numberOn?, htext, Option.bind_some, hk]
    · cases h
  next hnumber =>
  split at h
  · next addr ha =>
    cases h
    obtain ⟨hline, hhead⟩ := label?_eq_some ha
    refine .label hc ⟨hhead, hline ▸ hpred, ?_⟩ ?_
    · rintro ⟨rest, hrest⟩
      rw [hline, ← hrest, behind?_append] at hnumber
      cases hnumber
    · rw [← String.toList_inj, hline, toList_append_colon]
  · cases h

/-- **A line does one of these things.** -/
theorem reads_of_next (h : r.next n line.toList = .ok r') : Reads n line r r' := by
  rw [next] at h
  split at h
  · next hc => exact reads_of_between hc h
  next o hc =>
  split at h
  · next text htext =>
    rw [close] at h
    split at h
    · cases h
    next exits hx =>
    split at h
    · cases h
    cases h
    have hline : line = Dump.exitsMark ++ String.ofList text := by
      rw [← String.toList_inj, dropStart?_eq_some_iff.1 htext, String.toList_append,
        String.toList_ofList]
    refine .exits hc hline ?_
    rw [String.toList_ofList]
    exact hx
  · next hx =>
    obtain ⟨o', ho', hr'⟩ := ok_of_bind h
    cases hr'
    refine .inside hc ?_ ho'
    rintro ⟨rest, hrest⟩
    rw [← hrest, behind?_append] at hx
    cases hx

/-! ### Inside and outside -/

theorem Reads.inBlock (h : Reads n line r r') {done : List String}
    (hr : InBlock done ↔ r.current.isSome = true) :
    InBlock (done ++ [line]) ↔ r'.current.isSome = true := by
  rw [inBlock_concat, InBlock.behind, hr]
  cases h with
  | idle hc hline =>
    have hlabel : ¬ IsLabelLine line := fun hl => hl.not_isFront (.inl hline)
    simp [hc, hlabel]
  | number hc hk =>
    have hlabel : ¬ IsLabelLine line := fun hl => hl.not_isFront (.inr (by rw [IsNumber, hk]; rfl))
    simp [hc, hlabel]
  | label hc ha hline =>
    have hlabel : IsLabelLine line := ⟨_, ha, hline⟩
    simp [hc, hlabel]
  | inside hc hx _ => simp [hc, hx]
  | exits hc hline _ =>
    have hx : Dump.exitsMark.toList <+: line.toList := hline ▸ isExits_append _
    simp [hc, hx]

/-- **Inside a block.** An entry is being read. -/
theorem inBlock_of_readLines {ls done : List String}
    (hr : InBlock done ↔ r.current.isSome = true)
    (h : readLines n (ls.map String.toList) r = .ok r') :
    InBlock (done ++ ls) ↔ r'.current.isSome = true := by
  induction ls generalizing n r done with
  | nil =>
    cases h
    rw [List.append_nil]
    exact hr
  | cons line ls ih =>
    obtain ⟨r₁, h₁, hmore⟩ := ok_of_readLines_cons h
    have := ih ((reads_of_next h₁).inBlock hr) hmore
    rwa [List.append_assoc] at this

/-! ### Sections become entries -/

end Reading

/-- **Read as.** The entry says what the lines of the section say. -/
structure Section.ReadAs (s : Section) (e : Entry) : Prop where
  addr : e.addr = s.addr
  number : e.number = s.number?
  insts : BlockRead e.insts s.body
  exits : Exits.read s.exits.toList = .ok e.exits

namespace Reading

variable {r r' : Reading} {n : Nat} {line : String}

theorem flatMap_lines_concat (sections : List Section) (s : Section) :
    (sections ++ [s]).flatMap Section.lines ++ [] =
      sections.flatMap Section.lines ++ (s.front ++ (s.addr ++ ":") :: s.body) ++
        [Dump.exitsMark ++ s.exits] := by
  simp [Section.lines]

/-- **Reaches.** Where the reading stands behind these lines. -/
inductive Reaches : List String → Reading → Prop
  | between {sections entries front} : List.Forall₂ Section.ReadAs sections entries →
      (∀ line ∈ front, IsFront line) →
      Reaches (sections.flatMap Section.lines ++ front)
        { entries, current := none, number := lastNumber? front }
  | inside {sections entries front o body} : List.Forall₂ Section.ReadAs sections entries →
      (∀ line ∈ front, IsFront line) → IsLabel o.addr → o.number = lastNumber? front →
      (∀ line ∈ body, ¬ Dump.exitsMark.toList <+: line.toList) → o.Holds body →
      Reaches (sections.flatMap Section.lines ++ (front ++ (o.addr ++ ":") :: body))
        { entries, current := some o, number := none }

theorem reaches_start : Reaches [] {} := @Reaches.between [] [] [] .nil (List.forall_mem_nil _)

/-- The section that an entry was read from. -/
theorem readAs_close {o : OpenEntry} {front body : List String} {text : String}
    (hfront : ∀ line ∈ front, IsFront line) (hlabel : IsLabel o.addr)
    (hbody : ∀ line ∈ body, ¬ Dump.exitsMark.toList <+: line.toList)
    (hnumber : o.number = lastNumber? front) (hholds : o.Holds body) {exits : List Exit}
    (hx : Exits.read text.toList = .ok exits) (n : Nat) :
    Section.ReadAs ⟨front, o.addr, body, text, hfront, hlabel, hbody⟩ (o.flush.close exits n) := by
  have hinsts := hholds.close exits n
  rw [OpenEntry.flush_eq] at hinsts ⊢
  exact ⟨rfl, hnumber, hinsts, hx⟩

/-- **A line** goes on with what was reached. -/
theorem Reaches.reads {done : List String} (hr : Reaches done r) (h : Reads n line r r') :
    Reaches (done ++ [line]) r' := by
  cases hr with
  | @between sections entries front hread hfront =>
    rw [List.append_assoc]
    cases h with
    | idle _ hline =>
      rw [← lastNumber?_concat_idle hline front]
      exact .between hread (List.forall_mem_append.2 ⟨hfront,
        List.forall_mem_singleton.2 (.inl hline)⟩)
    | @number k _ hk =>
      have hline : IsNumber line := by
        rw [IsNumber, hk]
        rfl
      rw [← lastNumber?_concat_number hk front]
      exact .between hread (List.forall_mem_append.2 ⟨hfront,
        List.forall_mem_singleton.2 (.inr hline)⟩)
    | @label addr _ ha hline =>
      subst hline
      exact @Reaches.inside sections entries front
        { addr, start := n, number := lastNumber? front } []
        hread hfront ha rfl (List.forall_mem_nil _) OpenEntry.holds_start
    | inside hc _ _ => cases hc
    | exits hc _ _ => cases hc
  | @inside sections entries front o body hread hfront hlabel hnumber hbody hholds =>
    cases h with
    | idle hc _ => cases hc
    | number hc _ => cases hc
    | label hc _ _ => cases hc
    | @inside o₁ o' hc hx ho =>
      cases hc
      have hmore := hholds.next ho
      obtain ⟨haddr, -, hnumber'⟩ := OpenEntry.next_keeps ho
      rw [String.ofList_toList] at hmore
      rw [← haddr, List.append_assoc, List.append_assoc, List.cons_append]
      exact .inside hread hfront (haddr ▸ hlabel) (hnumber'.trans hnumber)
        (List.forall_mem_append.2 ⟨hbody, List.forall_mem_singleton.2 hx⟩) hmore
    | @exits o₁ text exits hc hline hx =>
      cases hc
      subst hline
      have hs := readAs_close hfront hlabel hbody hnumber hholds hx n
      have hmore := @Reaches.between _ _ [] (List.rel_append hread (.cons hs .nil))
        (List.forall_mem_nil _)
      rw [flatMap_lines_concat] at hmore
      exact hmore

/-- **All lines** do. -/
theorem Reaches.readLines {ls done : List String} (hr : Reaches done r)
    (h : Reading.readLines n (ls.map String.toList) r = .ok r') : Reaches (done ++ ls) r' := by
  induction ls generalizing n r done with
  | nil =>
    cases h
    rw [List.append_nil]
    exact hr
  | cons line ls ih =>
    obtain ⟨r₁, h₁, hmore⟩ := ok_of_readLines_cons h
    have := ih (hr.reads (reads_of_next h₁)) hmore
    rwa [List.append_assoc] at this

end Reading

/-- What was read of any text: its entries have different labels. -/
theorem nodup_of_finish {text : String} {r : Reading} {n : Nat} {entries : List Entry}
    (hr : readLines 1 (lines text.toList) {} = .ok r) (hf : r.finish n = .ok entries) :
    (entries.map Entry.addr).Nodup := by
  have hsound : r.Sound (· ≠ '\n') := sound_start.readLines (fun h => h rfl)
    (fun _ hl _ hc => (mem_of_mem_lines hl hc).2) hr
  rw [eq_of_finish hf]
  exact hsound.distinct

/-- **A text that is read has an outline.** Its entries are read from the sections. -/
theorem exists_outline {text : String} {r : Reading} {n : Nat} {entries : List Entry}
    (hr : readLines 1 (lines text.toList) {} = .ok r) (hf : r.finish n = .ok entries) :
    ∃ o : Outline, o.IsOf text ∧ List.Forall₂ Section.ReadAs o.sections entries := by
  rw [lines_eq_textLines] at hr
  have hreach := reaches_start.readLines hr
  rw [List.nil_append] at hreach
  generalize hls : textLines text = ls at hreach
  cases hreach with
  | @between sections _ front hread hfront =>
    cases hf
    exact ⟨⟨sections, front, hfront⟩, hls.symm, hread⟩
  | inside => cases hf

/-! ### Idle lines -/

/-- Outside of a block an idle line is passed over. -/
theorem readLines_idle {r : Reading} {line : String} (hc : r.current = none) (h : IsIdle line)
    (n : Nat) (more : List (List Char)) :
    readLines n (line.toList :: more) r = readLines (n + 1) more r := by
  have hskip : ((trim line.toList).isEmpty || (behind? Dump.predMark line.toList).isSome) =
      true := by
    refine Bool.or_eq_true_iff.2 (h.imp_right fun ⟨rest, hrest⟩ => ?_)
    rw [← hrest, behind?_append]
    rfl
  refine readLines_of_next ?_ more
  rw [next_between hc, Reading.between, if_pos hskip]

/-- **Idle lines.** Outside of a block, one is as good as another, whether the text is read or
not. -/
theorem result_readDump_idle {text text' line line' : String} {before after : List String}
    (ht : textLines text = before ++ line :: after)
    (ht' : textLines text' = before ++ line' :: after) (hline : IsIdle line)
    (hline' : IsIdle line') (hout : ¬ InBlock before) :
    (readDump text').result.1 = (readDump text).result.1 := by
  have hread : readLines 1 (lines text'.toList) {} = readLines 1 (lines text.toList) {} := by
    rw [lines_eq_textLines, lines_eq_textLines, ht, ht', List.map_append, List.map_append,
      readLines_append, readLines_append]
    cases hb : readLines 1 (before.map String.toList) {} with
    | error e => rfl
    | ok r =>
      have hin : InBlock ([] ++ before) ↔ r.current.isSome = true :=
        inBlock_of_readLines (by simp [InBlock]) hb
      have hc : r.current = none := by
        rw [List.nil_append] at hin
        simpa using mt hin.2 hout
      change readLines _ (line'.toList :: after.map String.toList) r =
        readLines _ (line.toList :: after.map String.toList) r
      rw [readLines_idle hc hline, readLines_idle hc hline']
  have hlength : (lines text'.toList).length = (lines text.toList).length := by
    rw [lines_eq_textLines, lines_eq_textLines, ht, ht']
    simp
  rw [result_readDump, result_readDump, hread, hlength]

end FlowText
