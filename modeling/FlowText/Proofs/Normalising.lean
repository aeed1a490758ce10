import FlowText.Proofs.ReadGraph
import FlowText.Proofs.RoundTrip

/-!
# Read, then dump

Reading a text and dumping what was read makes a dump of it, which says the same
(`reading_normalises`): whatever the text looked like, the dump is read as a graph that agrees with
the first one, and is the dump of that graph again.
-/

namespace FlowText

/-- **Reading normalises.** The text has no carriage returns, and what its exits lead to are
labels. -/
theorem reading_normalises {text : String} {g : Cfg} (hr : '\r' ∉ text.toList)
    (hg : (readDump text).result.1 = .ok g) (ht : ∀ a, ∀ b ∈ g.succ a, IsLabel b) :
    ∃ dump h, g.view.dump canonicalRenderer = .ok dump ∧ (readDump dump).result.1 = .ok h ∧
      g.Agrees h ∧ h.view.dump canonicalRenderer = .ok dump := by
  have hread : g.IsRead fun c => c ≠ '\n' ∧ c ≠ '\r' := by
    refine isRead_of_readDump hg (fun h => h.1 rfl) fun line hl c hc => ?_
    obtain ⟨hm, hn⟩ := mem_of_mem_lines hl hc
    exact ⟨hn, fun h => hr (h ▸ hm)⟩
  have hu : g.view.Unambiguous := by
    refine ⟨fun a ha => ?_, fun a ha b hb => (hread.listed a ha b hb).unshadowed⟩
    rcases hread.label a ha with h | ⟨-, s, hs⟩
    · exact h
    · exact ht s a hs
  have hp : g.view.EndsPlain := by
    intro a ha b hb i hi t hv hlast
    exact ((hread.listed a ha b hb).chars i hi t hv _ (List.mem_of_getLast? hlast)).2 rfl
  obtain ⟨dump, h, hd, hh, ha, hd', -⟩ := reads_back_of_legible hread.legible hread.coherent hu hp
  exact ⟨dump, h, hd, hh, ha, hd'⟩

/-- The text of a loop, with blanks, numbers and operators written in other ways than a dump has
them, a line that looks like an earlier stage in front of another one, and an exit to nowhere. -/
def looseText : String :=
  "\n// DFS#: +07\nloop:\n$r1=1\n// $r2 = 2\n// goto end\n$r1 = $r1+3\n" ++
    "Exits: [ (None,'end'), ('($r1==0)' , 'loop'),(None,'end')]\nstart:\n    None\nExits: []\n"

/-- The loose text is read, and dumped, and read again. -/
theorem loose_text_normalises :
    ∃ g, '\r' ∉ looseText.toList ∧ (readDump looseText).result.1 = .ok g ∧
      (∀ a, ∀ b ∈ g.succ a, IsLabel b) ∧
      ∃ dump h, g.view.dump canonicalRenderer = .ok dump ∧ (readDump dump).result.1 = .ok h ∧
        g.Agrees h ∧ h.view.dump canonicalRenderer = .ok dump := by
  have htargets : (readDump looseText).result.1.map (fun g => g.links.map Link.target) =
      .ok ["end", "loop"] := by decide +kernel
  obtain ⟨g, hg, hl⟩ := ok_of_map htargets
  have hr : '\r' ∉ looseText.toList := by decide +kernel
  have ht : ∀ a, ∀ b ∈ g.succ a, IsLabel b := by
    intro a b hb
    obtain ⟨l, hm, -, rfl⟩ := Cfg.mem_succ_iff.1 hb
    have hmem : l.target ∈ ["end", "loop"] := hl ▸ List.mem_map_of_mem hm
    have hlabels : ∀ b ∈ ["end", "loop"], IsLabel b := by decide
    exact hlabels _ hmem
  exact ⟨g, hr, hg, ht, reading_normalises hr hg ht⟩

end FlowText
