import FlowText.Proofs.Mirrors
import FlowText.Proofs.ReadGraph

/-!
# Dumped, read and dumped again

A line loses a carriage return at its end when a dump is read, and only verbatim texts have one. So
the graph that is read from a dump is the one that is dumped, with its verbatim texts cut
(`View.reread`); the second dump is the first one if and only if there was nothing to cut
(`second_dump_eq_iff`).

* `Inst.reread`, `Block.reread?`, `View.reread` — how what is dumped is read again.
* `lines_reread` — the lines of the second dump.
-/

namespace FlowText

/-! ### Texts -/

/-- A carriage return at the end is a blank to the lexer. -/
theorem lex_dropReturn (cs : List Char) : lex (dropReturn cs) = lex cs := by
  rcases dropReturn_cases cs with ⟨ds, rfl, hd⟩ | ⟨-, hd⟩
  · rw [hd, lex_append_blank (by decide), lex_nil]
    cases lex ds with
    | error e => rfl
    | ok ts => exact congrArg Except.ok (List.append_nil ts).symm
  · rw [hd]

/-- The text without a carriage return at its end. -/
def cutReturn (t : String) : String := String.ofList (dropReturn t.toList)

theorem toList_cutReturn (t : String) : (cutReturn t).toList = dropReturn t.toList :=
  String.toList_ofList

/-- The reader of instructions sees tokens only. -/
theorem ofText_of_lex_eq {s t : String} (h : lex s.toList = lex t.toList) :
    Inst.ofText s = Inst.ofText t := by
  rw [Inst.ofText, Inst.ofText, readText, readText, h]

/-- A text that is cut is read as before. -/
theorem ofText_cutReturn (t : String) : Inst.ofText (cutReturn t) = Inst.ofText t :=
  ofText_of_lex_eq (by rw [toList_cutReturn, lex_dropReturn])

/-- What a cut text starts with, the whole text starts with. -/
theorem prefix_of_dropReturn {start cs : List Char} (h : start <+: dropReturn cs) :
    start <+: cs := by
  rcases dropReturn_cases cs with ⟨ds, rfl, hd⟩ | ⟨-, hd⟩
  · rw [hd] at h
    exact h.trans (List.prefix_append _ _)
  · rwa [hd] at h

/-- A line of provenance that is cut says the same. -/
theorem originOf?_cutReturn (t : String) :
    Reading.originOf? (cutReturn t).toList = Reading.originOf? t.toList := by
  rw [toList_cutReturn]
  rcases dropReturn_cases t.toList with ⟨ds, ht, hd⟩ | ⟨-, hd⟩
  -- the carriage return lies behind the mark, and behind all tokens
  · have hmark : '\r' ∉ Dump.originMark.toList := by decide
    rw [hd, ht, Reading.originOf?, Reading.originOf?, Reading.behind?, Reading.behind?,
      dropStart?_append_cons hmark]
    cases dropStart? Dump.originMark.toList ds with
    | none => rfl
    | some rest =>
      have hlex : lex (String.ofList rest).toList =
          lex (String.ofList (rest ++ ['\r'])).toList := by
        rw [String.toList_ofList, String.toList_ofList, ← lex_dropReturn (rest ++ ['\r']),
          dropReturn_concat]
      rw [Option.bind_some, Option.map_some, Option.bind_some, ofText_of_lex_eq hlex]
  · rw [hd]

/-- A text that is cut is a line of provenance if it was one before. -/
theorem isOriginLine_cutReturn {t : String} : IsOriginLine (cutReturn t) ↔ IsOriginLine t := by
  rw [IsOriginLine, IsOriginLine, originOf?_cutReturn]

/-- A text that had to be kept as it is still has to be kept if it is cut. -/
theorem IsVerbatim.cutReturn {t : String} (h : IsVerbatim t) : IsVerbatim (cutReturn t) := by
  refine ⟨fun hm => ?_, fun hx => ?_, fun i hi => ?_⟩
  · rw [toList_cutReturn] at hm
    exact h.one_line (mem_of_mem_dropReturn hm)
  · rw [toList_cutReturn] at hx
    exact h.no_exits (prefix_of_dropReturn hx)
  · rw [ofText_cutReturn] at hi
    exact h.no_inst i hi

/-! ### Instructions -/

namespace Inst

/-- **Read again.** The instruction with its verbatim text cut. -/
def reread (i : Inst) : Inst :=
  match i.verbatim? with
  | some t => { i with args := [.verbatim (cutReturn t)] }
  | none => i

variable {i : Inst}

/-- Of a text that is kept as it is, the carriage return at its end is lost. -/
theorem reread_of_verbatim? {t : String} (h : i.verbatim? = some t) :
    i.reread = { i with args := [.verbatim (cutReturn t)] } := by
  rw [reread, h]

/-- All other instructions come back as they are. -/
theorem reread_of_verbatim?_eq_none (h : i.verbatim? = none) : i.reread = i := by
  rw [reread, h]

/-- Provenance comes back as it is. -/
theorem origins_reread (i : Inst) : i.reread.origins = i.origins := by
  rw [reread]
  split <;> rfl

/-- An instruction that is read again holds a verbatim text if it held one before, which is cut. -/
theorem verbatim?_reread (i : Inst) : i.reread.verbatim? = i.verbatim?.map cutReturn := by
  cases h : i.verbatim? with
  | none => rw [reread_of_verbatim?_eq_none h, h, Option.map_none]
  | some t =>
    obtain ⟨hop, hd, -⟩ := Operation.verbatim?_eq_some_iff.1 h
    rw [reread_of_verbatim? h]
    exact Operation.verbatim?_eq_some_iff.2 ⟨hop, hd, rfl⟩

/-- Reading an instruction again leaves it dangling, or not. -/
theorem isDangling_reread : i.reread.IsDangling ↔ i.IsDangling := by
  rw [IsDangling, IsDangling, origins_reread, verbatim?_reread]
  cases i.verbatim? with
  | none => exact Iff.rfl
  | some t => simp only [Option.map_some, Option.mem_some, exists_eq_left', isOriginLine_cutReturn]

/-- It also leaves the mark. -/
theorem isMarked_reread : i.reread.IsMarked ↔ i.IsMarked := by
  rw [IsMarked, IsMarked, origins_reread, isDangling_reread]

/-- What can be read once can be read again. -/
theorem Legible.reread (h : i.Legible) : i.reread.Legible := by
  refine ⟨by rw [origins_reread]; exact h.origins, ?_⟩
  rcases h.body with hr | ⟨t, ht, hv, ho⟩
  · rw [reread_of_verbatim?_eq_none hr.verbatim?_eq_none]
    exact .inl hr
  · refine .inr ⟨cutReturn t, by rw [verbatim?_reread, ht]; rfl, hv.cutReturn, fun hne => ?_⟩
    rw [origins_reread] at hne
    rw [isOriginLine_cutReturn]
    exact ho hne

/-- The line of an instruction that was read again is the line before, cut. -/
theorem Legible.toList_line_reread (h : i.Legible) :
    i.reread.line.toList = dropReturn i.line.toList := by
  rcases h.body with hr | ⟨t, ht, -⟩
  · rw [reread_of_verbatim?_eq_none hr.verbatim?_eq_none]
    exact hr.plain_line.stays.dropReturn_eq.symm
  · have ht' : i.reread.verbatim? = some (cutReturn t) := by
      rw [verbatim?_reread, ht]
      rfl
    rw [line_of_verbatim? ht, line_of_verbatim? ht', toList_cutReturn]

/-- So are all its lines. -/
theorem Legible.lines_reread (h : i.Legible) :
    i.reread.lines.map String.toList = i.lines.map fun line => dropReturn line.toList := by
  unfold Inst.lines
  rw [origins_reread]
  rcases h.origins with ho | ⟨p, ho, hp⟩
  · rw [ho]
    exact congrArg (fun cs => [cs]) h.toList_line_reread
  · rw [ho]
    have hmark : Stays (Dump.originMark ++ p.line) :=
      ((show Plain Dump.originMark by decide).append hp.plain_line).stays
    simp only [List.map_cons, List.map_nil, h.toList_line_reread, hmark.dropReturn_eq]

end Inst

/-- A list of instructions that can be read once can be read again. -/
theorem LegibleList.reread {insts : List Inst} (h : LegibleList insts) :
    LegibleList (insts.map Inst.reread) := by
  refine ⟨fun j hj => ?_, ?_⟩
  · obtain ⟨i, hi, rfl⟩ := List.mem_map.1 hj
    exact (h.each i hi).reread
  · rw [List.isChain_map]
    exact h.chain.imp fun i j hij hd => Inst.isMarked_reread.2 (hij (Inst.isDangling_reread.1 hd))

/-! ### Graphs -/

/-- **Read again.** A single text that is cut to the placeholder is read as a missing block. -/
def Block.reread? (b : Block) : Option Block :=
  let insts := b.insts.map Inst.reread
  if insts.length = 1 ∧ Shadows insts then none else some { b with insts }

/-- **Read again.** What a reader of the dump finds. -/
def View.reread (v : View) : View := { v with block? := fun a => (v.block? a).bind Block.reread? }

/-- A block that is found again keeps its address, its instructions are read again, and none of them
alone looks like a missing block. -/
theorem Block.reread?_eq_some {b c : Block} (h : b.reread? = some c) :
    c.addr = b.addr ∧ c.insts = b.insts.map Inst.reread ∧
      (Shadows c.insts → 2 ≤ c.insts.length) := by
  unfold Block.reread? at h
  dsimp only at h
  split at h
  · cases h
  · next hne =>
    cases h
    refine ⟨rfl, rfl, fun hs => ?_⟩
    have hpos : (b.insts.map Inst.reread).length ≠ 0 := by
      obtain ⟨i, hi, -⟩ := hs
      intro hnil
      rw [List.length_eq_zero_iff.1 hnil] at hi
      cases hi
    have hone : (b.insts.map Inst.reread).length ≠ 1 := fun h1 => hne ⟨h1, hs⟩
    change 2 ≤ (b.insts.map Inst.reread).length
    omega

/-- The lines of instructions that were read again are the lines before, each cut. -/
theorem lines_map_reread {insts : List Inst} (h : ∀ i ∈ insts, i.Legible) :
    ((insts.map Inst.reread).flatMap Inst.lines).map String.toList =
      (insts.flatMap Inst.lines).map fun line => dropReturn line.toList := by
  rw [List.flatMap_map, List.map_flatMap, List.map_flatMap]
  exact List.flatMap_congr fun i hi => (h i hi).lines_reread

namespace View

variable {v : View}

/-- The blocks of a view that was read again stand under their addresses. -/
theorem Coherent.reread (h : v.Coherent) : v.reread.Coherent := by
  refine ⟨h.sorted, h.nodup, h.succ_mem, h.succ_nodup, h.pred_perm, fun a ha c hc => ?_⟩
  obtain ⟨b, hb, hbc⟩ := Option.bind_eq_some_iff.1 hc
  exact (Block.reread?_eq_some hbc).1.trans (h.block_addr a ha b hb)

/-- A view that can be read once can be read again. -/
theorem Legible.reread (h : v.Legible) : v.reread.Legible := by
  refine ⟨h.one_line, h.number_lt, h.cond, fun a ha c hc => ?_⟩
  obtain ⟨b, hb, hbc⟩ := Option.bind_eq_some_iff.1 hc
  rw [(Block.reread?_eq_some hbc).2.1]
  exact (h.block a ha b hb).reread

/-- The body of an entry. A text that is cut to the placeholder has the line of one. -/
theorem Legible.bodyLines_reread (h : v.Legible) {a : String} (ha : a ∈ v.addrs) :
    (v.reread.bodyLines a).map String.toList =
      (v.bodyLines a).map fun line => dropReturn line.toList := by
  have hblock : v.reread.block? a = (v.block? a).bind Block.reread? := rfl
  rw [bodyLines, bodyLines, hblock]
  cases hb : v.block? a with
  | none => rfl
  | some b =>
    have hlegible := (h.block a ha b hb).each
    have hlines := lines_map_reread hlegible
    rw [Option.bind_some]
    -- a block that vanishes has the placeholder for its only line, which is what stands there now
    cases hc : b.reread? with
    | some c =>
      dsimp only
      rw [Block.lines, Block.lines, (Block.reread?_eq_some hc).2.1]
      exact hlines
    | none =>
      dsimp only
      rw [Block.lines, ← hlines]
      unfold Block.reread? at hc
      dsimp only at hc
      split at hc
      · next hshadow =>
        obtain ⟨hlen, i, hi, ho, ht⟩ := hshadow
        obtain ⟨j, hj⟩ := List.length_eq_one_iff.1 hlen
        rw [hj] at hi ⊢
        obtain rfl : j = i := by simpa using hi
        rw [List.flatMap_singleton, Inst.lines, ho, line_of_verbatim? ht]
      · cases hc

/-- Each line of an entry comes back cut. -/
theorem Legible.entryLines_reread (hl : v.Legible) (hc : v.Coherent) {a : String}
    (ha : a ∈ v.addrs) :
    (v.reread.entryLines a).map String.toList =
      (v.entryLines a).map fun line => dropReturn line.toList := by
  have hpred := (stays_predText (hl.one_line_pred hc ha)).dropReturn_eq
  have hlabel := (stays_label (hl.one_line a ha)).dropReturn_eq
  have hexits := (stays_exitsText (hl.one_line_succ hc ha) (hl.cond a ha)).dropReturn_eq
  have hnumber : (v.numberLines a).map String.toList =
      (v.numberLines a).map fun line => dropReturn line.toList :=
    List.map_congr_left fun line hline => (stays_numberLines line hline).dropReturn_eq.symm
  change (v.predText a :: (v.numberLines a ++
    (a ++ ":") :: (v.reread.bodyLines a ++ [v.exitsText a]))).map String.toList = _
  rw [entryLines]
  simp only [List.map_cons, List.map_append, List.map_nil, hl.bodyLines_reread ha, hpred, hlabel,
    hexits, hnumber]

/-- **The lines of the second dump** are those of the first one as they are cut. -/
theorem Legible.lines_reread (hl : v.Legible) (hc : v.Coherent) :
    v.reread.lines.map String.toList = v.lines.map fun line => dropReturn line.toList := by
  have hentry := fun a ha => hl.entryLines_reread hc (a := a) ha
  have haddrs : v.reread.addrs = v.addrs := rfl
  unfold lines
  rw [haddrs]
  cases hv : v.addrs with
  | nil => rfl
  | cons first more =>
    rw [hv] at hentry
    dsimp only
    rw [List.map_append, List.map_append, hentry first List.mem_cons_self, List.map_flatMap,
      List.map_flatMap]
    refine congrArg (_ ++ ·) (List.flatMap_congr fun a ha => ?_)
    rw [List.map_cons, List.map_cons, hentry a (List.mem_cons_of_mem _ ha)]
    rfl

end View

/-! ### The second dump -/

/-- A text only loses characters when it is cut. -/
theorem length_dropReturn_le (cs : List Char) : (dropReturn cs).length ≤ cs.length := by
  rcases dropReturn_cases cs with ⟨ds, rfl, hd⟩ | ⟨-, hd⟩
  · rw [hd, List.length_append]
    exact Nat.le_add_right _ _
  · rw [hd]

/-- A line that is cut becomes shorter. -/
theorem dropReturn_eq_of_length {cs : List Char} (h : cs.length ≤ (dropReturn cs).length) :
    dropReturn cs = cs := by
  rcases dropReturn_cases cs with ⟨ds, rfl, hd⟩ | ⟨-, hd⟩
  · rw [hd, List.length_append, List.length_singleton] at h
    omega
  · exact hd

/-- The length of a text is that of its lines, with one more for each. -/
theorem length_unlines_cons (l : String) (ls : List String) :
    (unlines (l :: ls)).toList.length = l.toList.length + 1 + (unlines ls).toList.length := by
  rw [unlines, String.toList_append, String.toList_append, List.length_append, List.length_append]
  rfl

/-- Lines that are cut make a text that is no longer. -/
theorem length_unlines_le {ls ms : List String}
    (h : ls.map String.toList = ms.map fun line => dropReturn line.toList) :
    (unlines ls).toList.length ≤ (unlines ms).toList.length := by
  induction ms generalizing ls with
  | nil =>
    obtain rfl := List.map_eq_nil_iff.1 h
    exact Nat.le_refl _
  | cons m ms ih =>
    obtain ⟨l, ls, rfl, hl, hls⟩ := List.map_eq_cons_iff.1 h
    dsimp only at hl
    rw [length_unlines_cons, length_unlines_cons, hl]
    have := length_dropReturn_le m.toList
    have := ih hls
    omega

/-- If a text is still the same after its lines were cut, no line was. -/
theorem dropReturn_eq_of_unlines_eq {ls ms : List String}
    (h : ls.map String.toList = ms.map fun line => dropReturn line.toList)
    (he : unlines ls = unlines ms) : ∀ line ∈ ms, dropReturn line.toList = line.toList := by
  replace he : (unlines ms).toList.length ≤ (unlines ls).toList.length := by rw [he]
  induction ms generalizing ls with
  | nil => exact fun line hm => absurd hm List.not_mem_nil
  | cons m ms ih =>
    obtain ⟨l, ls, rfl, hl, hls⟩ := List.map_eq_cons_iff.1 h
    dsimp only at hl
    rw [length_unlines_cons, length_unlines_cons, hl] at he
    have hline := length_dropReturn_le m.toList
    have hmore := length_unlines_le hls
    intro line hm
    rcases List.mem_cons.1 hm with rfl | hm
    · exact dropReturn_eq_of_length (by omega)
    · exact ih hls (by omega) line hm

/-- Cutting the lines of a dump changes it unless its verbatim texts end plain. -/
theorem View.Legible.unlines_reread_eq_iff {v : View} (hl : v.Legible) (hc : v.Coherent) :
    unlines v.reread.lines = unlines v.lines ↔ v.EndsPlain := by
  have hlines := hl.lines_reread hc
  refine ⟨fun he => ?_, fun hp => ?_⟩
  · refine (hl.stays_iff hc).1 fun line hline => ⟨hl.one_line_lines hc line hline, ?_⟩
    exact dropReturn_eq_self_iff.1 (dropReturn_eq_of_unlines_eq hlines he line hline)
  · have hsame : v.reread.lines.map String.toList = v.lines.map String.toList := by
      rw [hlines]
      exact List.map_congr_left fun line h => ((hl.stays_iff hc).2 hp line h).dropReturn_eq
    rw [List.map_injective_iff.2 (fun _ _ he => String.toList_inj.1 he) hsame]

/-- A dump is cut into the lines of the view that its reader finds. -/
theorem View.Legible.lines_dump_eq_reread {v : View} (hl : v.Legible) (hc : v.Coherent) :
    FlowText.lines (unlines v.lines).toList = v.reread.lines.map String.toList := by
  rw [hl.lines_dump hc, hl.lines_reread hc]

/-- Nothing in the dump of a graph that was read is misread. -/
theorem Cfg.IsRead.guarded {Q : Char → Prop} {g : Cfg} (h : g.IsRead Q) :
    ∀ a ∈ g.view.reread.addrs, g.view.reread.Guarded a := by
  intro a ha
  refine ⟨fun hlabel => ?_, fun b hb => ?_⟩
  · obtain ⟨⟨hnumber, hblock⟩, -⟩ := (h.label a ha).resolve_left hlabel
    refine ⟨hnumber, ?_⟩
    change (g.block? a).bind Block.reread? = none
    rw [hblock]
    rfl
  · obtain ⟨c, -, hcb⟩ := Option.bind_eq_some_iff.1 hb
    exact (Block.reread?_eq_some hcb).2.2

/-- Any graph that is read, for its lines. -/
theorem isRead_of_ok {text : String} {g : Cfg} (hg : (readDump text).result.1 = .ok g) :
    g.IsRead (· ≠ '\n') :=
  isRead_of_readDump hg (fun h => h rfl) fun _ hl _ hc => (mem_of_mem_lines hl hc).2

/-- **The second dump.** A graph that was read can be dumped. If its dump is read, what is read can
be dumped too, and this is the same dump if and only if no verbatim text of the graph ends with a
carriage return. -/
theorem second_dump_eq_iff {text : String} {g : Cfg} (hg : (readDump text).result.1 = .ok g) :
    ∃ first, g.view.dump canonicalRenderer = .ok first ∧
      ∀ h, (readDump first).result.1 = .ok h →
        ∃ second, h.view.dump canonicalRenderer = .ok second ∧
          (second = first ↔ g.view.EndsPlain) := by
  have hread := isRead_of_ok hg
  have hl := hread.legible
  have hc := hread.coherent
  have hcut := hl.lines_dump_eq_reread hc
  refine ⟨_, hl.dump, fun h hh => ?_⟩
  -- whatever was misread would not have been read at all
  have hu : g.view.reread.Unambiguous := by
    have hresult := hh
    rw [result_readDump, hcut] at hresult
    obtain ⟨r, hr, -⟩ := ok_of_bind hresult
    exact hl.reread.unambiguous hc.reread.nodup hread.guarded hr
  obtain ⟨h', hh', hm, -⟩ := hl.reread.read_back hc.reread hu hcut
  obtain rfl := Except.ok.inj (hh.symm.trans hh')
  exact ⟨_, hm.dump hl.reread, hl.unlines_reread_eq_iff hc⟩

/-! ### A text that is cut -/

/-- A line that is no instruction ends with two carriage returns. The first time it is read it loses
one of them, and the second time the other one. -/
def returnsText : String := "a:\nfoo bar\r\r\nExits: []\n"

/-- The graph of the text. -/
theorem exists_read_returnsText :
    ∃ g, (readDump returnsText).result.1 = .ok g ∧ g.nodes.map Node.addr = ["a"] ∧
      (g.block? "a").map Block.insts = some [.literal "foo bar\r"] := by
  have hread : (readDump returnsText).result.1.map (fun g =>
      (g.nodes.map Node.addr, (g.block? "a").map Block.insts)) =
      .ok (["a"], some [.literal "foo bar\r"]) := by decide +kernel
  obtain ⟨g, hg, he⟩ := ok_of_map hread
  obtain ⟨hn, hb⟩ := Prod.mk.inj he
  exact ⟨g, hg, hn, hb⟩

/-- The line of the example ends with a carriage return. -/
theorem not_endsPlain_returnsText {g : Cfg} (hn : g.nodes.map Node.addr = ["a"])
    (hb : (g.block? "a").map Block.insts = some [.literal "foo bar\r"]) : ¬ g.view.EndsPlain := by
  intro hp
  obtain ⟨b, hblock, hinsts⟩ := Option.map_eq_some_iff.1 hb
  have ha : "a" ∈ g.sortedAddrs := by
    rw [Cfg.mem_sortedAddrs, hn]
    exact List.mem_singleton_self "a"
  have hend := hp "a" ha b hblock (.literal "foo bar\r") (hinsts ▸ List.mem_singleton_self _)
  revert hend
  decide

/-- The second dump of this text is another one than the first. -/
theorem returnsText_dumped_twice :
    ∃ g, (readDump returnsText).result.1 = .ok g ∧ ¬ g.view.EndsPlain ∧
      ∃ first, g.view.dump canonicalRenderer = .ok first ∧
        ∀ h, (readDump first).result.1 = .ok h →
          ∃ second, h.view.dump canonicalRenderer = .ok second ∧
            (second = first ↔ g.view.EndsPlain) := by
  obtain ⟨g, hg, hn, hb⟩ := exists_read_returnsText
  exact ⟨g, hg, not_endsPlain_returnsText hn hb, second_dump_eq_iff hg⟩

/-- **A dump that does not come back.** Not every dump of a graph that was read is the dump of what
is read from it. -/
theorem dump_not_always_stable :
    ¬ ∀ (text : String) (g : Cfg), (readDump text).result.1 = .ok g →
      ∃ first, g.view.dump canonicalRenderer = .ok first ∧
        ∀ h, (readDump first).result.1 = .ok h → h.view.dump canonicalRenderer = .ok first := by
  intro hall
  obtain ⟨g, hg, hn, hb⟩ := exists_read_returnsText
  have hread := isRead_of_ok hg
  have hl := hread.legible
  have hc := hread.coherent
  have hu : g.view.reread.Unambiguous := by
    have haddr : ∀ a ∈ g.view.reread.addrs, a = "a" := by
      intro a ha
      rw [show g.view.reread.addrs = g.sortedAddrs from rfl, Cfg.mem_sortedAddrs, hn] at ha
      exact List.mem_singleton.1 ha
    refine ⟨fun a ha => haddr a ha ▸ by decide, fun a ha b hblock hs => ?_⟩
    have hlen := (hread.guarded a ha).block b hblock hs
    obtain rfl := haddr a ha
    obtain ⟨c, hc', hcb⟩ := Option.bind_eq_some_iff.1 hblock
    obtain ⟨d, hd, hinsts⟩ := Option.map_eq_some_iff.1 hb
    obtain rfl := Option.some.inj (hd.symm.trans hc')
    rw [(Block.reread?_eq_some hcb).2.1, hinsts] at hlen
    revert hlen
    decide
  obtain ⟨first, hfirst, hstable⟩ := hall returnsText g hg
  obtain rfl := Except.ok.inj (hl.dump.symm.trans hfirst)
  obtain ⟨h, hh, hm, -⟩ := hl.reread.read_back hc.reread hu (hl.lines_dump_eq_reread hc)
  have hsame := Except.ok.inj ((hm.dump hl.reread).symm.trans (hstable h hh))
  exact not_endsPlain_returnsText hn hb ((hl.unlines_reread_eq_iff hc).1 hsame)

end FlowText
