import FlowText.Proofs.LocatedErrors
import FlowText.Proofs.SecondDump
import FlowText.Proofs.Stable
import FlowText.Proofs.StockPasses
import FlowText.Proofs.TextGraph
import FlowText.Proofs.WellShaped

/-!
# Graphs that can be shown

A renderer refuses an instruction only if a stage of it breaks the shape rules, so a graph whose
instructions keep them can be dumped and drawn (`Cfg.Valid.printable`). The graphs that are read are
such graphs, and stock passes keep them so. With this, reading is safe (`reading_is_safe`): it ends
with a graph that can be shown, or with an error that is located in the text.
-/

namespace FlowText

variable {σ : Type}

/-! ### Instructions -/

/-- **Valid.** Every stage of the instruction keeps the shape rules. -/
def Inst.Valid (i : Inst) : Prop := ∀ o ∈ i.toOperation :: i.origins, o.validate = .ok ()

namespace Inst

variable {i : Inst}

theorem Valid.exists_canonical (h : i.Valid) : ∃ t, i.canonical = .ok t :=
  i.canonical_failsAs.exists_ok fun o ho => ⟨(), h o ho⟩

/-- No layout refuses a valid instruction. -/
theorem Valid.exists_render (h : i.Valid) (layout : Layout) : ∃ t, layout.render i = .ok t := by
  obtain ⟨style, omitDead⟩ := layout
  cases style with
  | diagnostic => exact Layout.exists_render_diagnostic omitDead i
  | canonical =>
    cases hshown : !(omitDead && i.isDead) with
    | false => exact ⟨none, Layout.render_hidden _ hshown⟩
    | true =>
      obtain ⟨t, ht⟩ := h.exists_canonical
      exact ⟨some t, by rw [Layout.render_canonical hshown, ht]; rfl⟩

theorem Writable.valid (h : i.Writable) : i.Valid := by
  obtain ⟨form, hf⟩ := h.form
  rw [Valid, List.forall_mem_cons]
  refine ⟨Operation.validate_of_form hf, fun p hp => ?_⟩
  rcases h.origins with ho | ⟨q, ho, form', hf'⟩
  · rw [ho] at hp
    exact absurd hp List.not_mem_nil
  · rw [ho] at hp
    obtain rfl := List.mem_singleton.1 hp
    exact Operation.validate_of_form hf'

end Inst

/-! ### Graphs -/

namespace Cfg

variable {g h : Cfg}

/-- **Valid.** Every instruction is. -/
def Valid (g : Cfg) : Prop := ∀ b ∈ g.blocks, ∀ i ∈ b.insts, i.Valid

/-- **Printable.** The graph can be dumped and drawn, with every layout and every title. -/
structure Printable (g : Cfg) : Prop where
  dump : ∀ layout : Layout, ∃ text, g.view.dump layout.render = .ok text
  draw : ∀ (title : Option String) (layout : Layout), ∃ text, g.draw title layout.render = .ok text

theorem mem_blocks_iff {b : Block} : b ∈ g.blocks ↔ ∃ addr, g.block? addr = some b := by
  constructor
  · intro hm
    obtain ⟨n, hn, hb⟩ := List.mem_filterMap.1 hm
    exact ⟨n.addr, by rw [block?, node?_eq_some_iff.2 ⟨hn, rfl⟩, Option.bind_some, hb]⟩
  · rintro ⟨addr, hb⟩
    obtain ⟨n, hn, hnb⟩ := Option.bind_eq_some_iff.1 hb
    exact List.mem_filterMap.2 ⟨n, (node?_eq_some_iff.1 hn).1, hnb⟩

/-- What is shown stands in a block. -/
theorem exists_of_mem_insts {i : Inst} (hi : i ∈ g.view.insts) : ∃ b ∈ g.blocks, i ∈ b.insts := by
  obtain ⟨addr, -, hi⟩ := List.mem_flatMap.1 hi
  rw [View.instsAt] at hi
  cases hb : g.view.block? addr with
  | none =>
    rw [hb] at hi
    cases hi
  | some b =>
    rw [hb] at hi
    exact ⟨b, mem_blocks_iff.2 ⟨addr, hb⟩, hi⟩

/-- **What is valid can be shown.** -/
theorem Valid.printable (hg : g.Valid) : g.Printable := by
  have hrender : ∀ layout : Layout, ∀ i ∈ g.view.insts, ∃ t, layout.render i = .ok t := by
    intro layout i hi
    obtain ⟨b, hb, hib⟩ := exists_of_mem_insts hi
    exact (hg b hb i hib).exists_render layout
  exact ⟨fun layout => (g.view.dump_failsAs layout.render).exists_ok (hrender layout),
    fun title layout => (g.draw_failsAs title layout.render).exists_ok (hrender layout)⟩

/-- Instructions that are taken out leave the others valid. -/
theorem Trimmed.valid (ht : h.Trimmed g) (hg : g.Valid) : h.Valid := by
  intro b hb i hi
  obtain ⟨a, ha⟩ := mem_blocks_iff.1 hb
  have hrel := ht.block a
  rw [ha] at hrel
  generalize hc : g.block? a = c at hrel
  cases hrel with
  | some hbc => exact hg _ (mem_blocks_iff.2 ⟨a, hc⟩) i (hbc.sublist.subset hi)

/-- **What is read is valid.** -/
theorem IsRead.valid {Q : Char → Prop} (hg : g.IsRead Q) : g.Valid := by
  intro b hb i hi
  obtain ⟨a, ha⟩ := mem_blocks_iff.1 hb
  have hmem : a ∈ g.sortedAddrs := by
    by_contra hne
    rw [block?, node?_eq_none hne] at ha
    cases ha
  exact ((hg.legible.block a hmem b ha).each i hi).writable.valid

/-- **Stock passes** leave valid graphs valid, however often they run. -/
theorem Valid.exists_runs (hg : g.Valid) {script : Script}
    (hs : ∀ s ∈ script, (Catalog.stock (σ := σ)).contains s.kind s.name = true) (config : Config) :
    ∃ changed h, script.Runs σ config g changed h ∧ h.Valid := by
  obtain ⟨ks, -, hruns⟩ := Script.exists_runs hs config
  refine ⟨_, _, hruns g, ?_⟩
  have htrimmed :=
    rounds_keep (R := Trimmed) (fun g => .refl g) (fun _ _ _ hkh hhg => hkh.trans hhg)
    (fun k (_ : k ∈ ks) g => k.trimmed g) config.maxRounds g
  exact htrimmed.valid hg

end Cfg

/-! ### Texts -/

/-- The entries that are read have different labels. -/
theorem nodup_of_readEntries {text : String} {entries : List Entry}
    (h : (readEntries text).result.1 = .ok entries) : (entries.map Entry.addr).Nodup := by
  have hresult : (readEntries text).result.1 = _ := settles_readEntries text #[]
  rw [hresult] at h
  obtain ⟨r, hr, hf⟩ := ok_of_bind h
  exact nodup_of_finish hr hf

/-- **Reading is safe.** A text that is not read has a line that is to blame, and no error is of
another kind. No compound would be refused if it were put together from its parts, and no node that
the entries ask for is refused. What is read keeps the shape rules, so it can be dumped and drawn
with every layout, and so can what any script of stock passes makes of it. -/
theorem reading_is_safe (text : String) :
    (∀ e, (readDump text).result.1 = .error e → e.LocatedIn (textLines text).length) ∧
    (∀ chain : Chain, Chain.ofItems chain.items = .ok chain) ∧
    (∀ entries, (readEntries text).result.1 = .ok entries →
      entries.foldlM Entry.tryAdd .empty = .ok (entries.foldl Entry.addTo .empty)) ∧
    ∀ g, (readDump text).result.1 = .ok g → g.Valid ∧ g.Printable ∧
      ∀ (script : Script) (config : Config),
        (∀ s ∈ script, (Catalog.stock (σ := σ)).contains s.kind s.name = true) →
        ∃ changed h, script.Runs σ config g changed h ∧ h.Valid ∧ h.Printable := by
  refine ⟨fun e => located_of_readDump, Chain.ofItems_items,
    fun entries hentries => Entry.foldlM_tryAdd (nodup_of_readEntries hentries), fun g hg => ?_⟩
  have hvalid : g.Valid := (isRead_of_ok hg).valid
  refine ⟨hvalid, hvalid.printable, fun script config hs => ?_⟩
  obtain ⟨changed, h, hrun, hh⟩ := hvalid.exists_runs hs config
  exact ⟨changed, h, hrun, hh, hh.printable⟩

/-- A block without its exits is to blame on its last line, and what is read of the fork can be
shown, also when it has been tidied. -/
theorem fork_reads_safely :
    (∃ e, (readDump "a:").result.1 = .error e ∧ e.LocatedIn (textLines "a:").length) ∧
    ∃ g, (readDump forkText).result.1 = .ok g ∧ g.Valid ∧ g.Printable ∧
      (∃ entries, (readEntries forkText).result.1 = .ok entries ∧
        entries.foldlM Entry.tryAdd .empty = .ok (entries.foldl Entry.addTo .empty)) ∧
      ∃ changed h, tidyScript.Runs Unit {} g changed h ∧ h.Valid ∧ h.Printable := by
  have herror : (readDump "a:").result.1.isOk = false := by decide +kernel
  have hnumbers : (readEntries forkText).result.1.map (·.map Entry.number) =
      .ok [some 1, none] := by
    decide +kernel
  obtain ⟨entries, hentries, -⟩ := ok_of_map hnumbers
  obtain ⟨g, hg⟩ := exists_read_forkText
  obtain ⟨hlocated, -⟩ := reading_is_safe (σ := Unit) "a:"
  obtain ⟨-, -, hadded, hshown⟩ := reading_is_safe (σ := Unit) forkText
  obtain ⟨hvalid, hprintable, hruns⟩ := hshown g hg
  refine ⟨?_, g, hg, hvalid, hprintable, ⟨entries, hentries, hadded entries hentries⟩,
    hruns tidyScript {} (by decide)⟩
  cases he : (readDump "a:").result.1 with
  | ok g =>
    rw [he] at herror
    cases herror
  | error e => exact ⟨e, rfl, hlocated e he⟩

end FlowText
