import FlowText.Proofs.Outline

/-!
# The lines of a block

Instructions take up the lines of a block from the first to the last, each of them one line or two
(`Takes`), and in one way only (`Takes.unique`). An entry that is being read holds the lines that
were read of it (`OpenEntry.Holds`): those of its instructions, and behind them the line that waits.
-/

namespace FlowText

open Reading

/-! ### Origins -/

/-- **Origins.** The line is a comment that holds the instruction. -/
def OriginOn (line : String) (e : Inst) : Prop :=
  ∃ text, line = Dump.originMark ++ text ∧ Inst.ofText text = .ok e

theorem originOn_iff {line : String} {e : Inst} :
    OriginOn line e ↔ originOf? line.toList = some e := by
  constructor
  · rintro ⟨text, rfl, he⟩
    rw [originOf?, String.toList_append, behind?_append, Option.bind_some, String.ofList_toList, he]
    rfl
  · intro h
    obtain ⟨rest, hrest, he⟩ := exists_of_originOf? h
    refine ⟨String.ofList rest, ?_, he⟩
    rw [← String.toList_inj, hrest, String.toList_append, String.toList_ofList]

theorem isOriginLine_iff {line : String} : IsOriginLine line ↔ ∃ e, OriginOn line e := by
  rw [IsOriginLine, Option.isSome_iff_exists]
  exact exists_congr fun e => originOn_iff.symm

theorem OriginOn.isOriginLine {line : String} {e : Inst} (h : OriginOn line e) :
    IsOriginLine line :=
  isOriginLine_iff.2 ⟨e, h⟩

theorem OriginOn.unique {line : String} {e f : Inst} (he : OriginOn line e) (hf : OriginOn line f) :
    e = f :=
  Option.some.inj ((originOn_iff.1 he).symm.trans (originOn_iff.1 hf))

theorem not_isOriginLine_iff {line : String} :
    ¬ IsOriginLine line ↔ originOf? line.toList = none := by
  rw [IsOriginLine, Option.not_isSome_iff_eq_none]

/-- What a line holds has no history of its own. -/
theorem origins_instOn (line : String) : (instOn line).origins = [] := by
  rw [instOn]
  cases h : Inst.ofText line with
  | ok i => exact (readable_of_ofText h).2
  | error e => rfl

/-! ### Instructions take up lines -/

/-- **Takes.** The instructions are read from the lines, in order, and each line is read once. -/
inductive Takes : List Inst → List String → Prop
  | nil : Takes [] []
  /-- A line that is no origin is an instruction. -/
  | single {line insts lines} : ¬ IsOriginLine line → Takes insts lines →
      Takes (instOn line :: insts) (line :: lines)
  /-- An origin goes with the instruction on the next line. -/
  | stages {line earlier next insts lines} : OriginOn line earlier → ¬ IsOriginLine next →
      Takes insts lines → Takes ((instOn next).setOrigin earlier :: insts) (line :: next :: lines)
  /-- An origin in front of another one, or of the exits, is kept as it stands. -/
  | kept {line insts lines} : IsOriginLine line → (∀ next ∈ lines.head?, IsOriginLine next) →
      Takes insts lines → Takes (.literal line :: insts) (line :: lines)

namespace Takes

variable {insts insts' : List Inst} {lines : List String}

/-- **In one way only.** The same lines are not taken by other instructions. -/
theorem unique (h : Takes insts lines) (h' : Takes insts' lines) : insts' = insts := by
  induction h generalizing insts' with
  | nil =>
    cases h'
    rfl
  | single hline _ ih =>
    cases h' with
    | single _ h => rw [ih h]
    | stages he _ _ => exact absurd he.isOriginLine hline
    | kept he _ _ => exact absurd he hline
  | stages he hnext _ ih =>
    cases h' with
    | single hline _ => exact absurd he.isOriginLine hline
    | stages he' _ h => rw [ih h, he.unique he']
    | kept _ hhead _ => exact absurd (hhead _ rfl) hnext
  | kept hline hhead _ ih =>
    cases h' with
    | single hline' _ => exact absurd hline hline'
    | stages _ hnext _ => exact absurd (hhead _ rfl) hnext
    | kept _ _ h => rw [ih h]

/-- An instruction with a history takes up two lines, and any other takes up one. -/
theorem length_eq (h : Takes insts lines) :
    lines.length = (insts.map fun i => if i.origins = [] then 1 else 2).sum := by
  induction h with
  | nil => rfl
  | @single line insts lines _ _ ih =>
    rw [List.map_cons, List.sum_cons, ← ih, if_pos (origins_instOn line), List.length_cons,
      Nat.add_comm]
  | @stages line earlier next insts lines _ _ _ ih =>
    have hne : ((instOn next).setOrigin earlier).origins ≠ [] := List.cons_ne_nil _ _
    rw [List.map_cons, List.sum_cons, ← ih, if_neg hne, List.length_cons, List.length_cons]
    omega
  | @kept line insts lines _ _ _ ih =>
    have hnil : (Inst.literal line).origins = [] := rfl
    rw [List.map_cons, List.sum_cons, ← ih, if_pos hnil, List.length_cons, Nat.add_comm]

theorem eq_nil_iff (h : Takes insts lines) : insts = [] ↔ lines = [] := by
  cases h <;> simp

end Takes

/-- **Blocks.** A block is missing where the placeholder stands alone. -/
inductive BlockRead : Option (List Inst) → List String → Prop
  | missing : BlockRead none [Dump.placeholder]
  | insts {insts lines} : lines.head? ≠ some Dump.placeholder → Takes insts lines →
      BlockRead (some insts) lines

/-! ### Entries that are being read -/

namespace OpenEntry

variable {o o' : OpenEntry} {lines : List String}

/-- **Gathering.** Whatever follows, the instructions so far take up the lines so far. The line that
waits is left to what follows. -/
structure Gathers (o : OpenEntry) (lines : List String) : Prop where
  head : lines.head? ≠ some Dump.placeholder
  takes : ∀ insts more, Takes insts (o.waiting.toList.map Prod.snd ++ more) →
    Takes (o.insts ++ insts) (lines ++ more)
  waiting : ∀ w ∈ o.waiting, OriginOn w.2 w.1

/-- **Holding.** The entry holds the lines that were read of it. -/
inductive Holds (o : OpenEntry) (lines : List String) : Prop
  | missing : o.missing = true → lines = [Dump.placeholder] → Holds o lines
  | insts : o.missing = false → o.Gathers lines → Holds o lines

/-- Behind its label an entry holds nothing. -/
theorem holds_start {addr : String} {start : Nat} {number : Option Nat} :
    ({ addr, start, number } : OpenEntry).Holds [] :=
  .insts rfl ⟨(Option.some_ne_none _).symm,
    fun _ _ h => h, fun _ h => absurd h (Option.not_mem_none _)⟩

namespace Gathers

/-- At the end, the line that waits is kept as it stands. -/
theorem flush (h : o.Gathers lines) : Takes o.flush.insts lines := by
  rw [OpenEntry.flush]
  cases hw : o.waiting with
  | none =>
    have htakes := h.takes [] []
    rw [hw, List.append_nil o.insts, List.append_nil lines] at htakes
    exact htakes .nil
  | some w =>
    have htakes := h.takes [.literal w.2] []
    rw [hw, List.append_nil lines] at htakes
    have hlast : ∀ next ∈ ([] : List String).head?, IsOriginLine next := fun _ hnext =>
      absurd hnext (Option.not_mem_none _)
    exact htakes (.kept (h.waiting w hw).isOriginLine hlast .nil)

/-- Nothing is held if nothing was read. -/
theorem isEmpty_iff (h : o.Gathers lines) :
    (o.insts.isEmpty = true ∧ o.waiting.isNone = true) ↔ lines = [] := by
  rw [← h.flush.eq_nil_iff, OpenEntry.flush]
  cases hw : o.waiting <;> simp

/-- The placeholder is at the head of no more lines than of these, if it is not read as one. -/
theorem head_concat (h : o.Gathers lines) {line : String}
    (hp : ¬ (line = Dump.placeholder ∧ o.insts.isEmpty = true ∧ o.waiting.isNone = true)) :
    (lines ++ [line]).head? ≠ some Dump.placeholder := by
  cases lines with
  | nil =>
    intro hhead
    exact hp ⟨Option.some.inj hhead, h.isEmpty_iff.2 rfl⟩
  | cons l ls => exact h.head

/-- **An origin.** It waits, and the one that waited is kept as it stands. -/
theorem origin (h : o.Gathers lines) {line : String} {e : Inst} (he : OriginOn line e)
    (hp : (lines ++ [line]).head? ≠ some Dump.placeholder) :
    ({ o.flush with waiting := some (e, line) } : OpenEntry).Gathers (lines ++ [line]) := by
  refine ⟨hp, fun insts more hmore => ?_, fun w hw => Option.some.inj hw ▸ he⟩
  rw [List.append_assoc]
  change Takes (o.flush.insts ++ insts) _
  change Takes insts (line :: more) at hmore
  rw [OpenEntry.flush]
  cases hw : o.waiting with
  | none =>
    refine h.takes _ _ ?_
    rw [hw]
    exact hmore
  | some w =>
    rw [List.append_assoc]
    refine h.takes _ _ ?_
    rw [hw]
    exact .kept (h.waiting w hw).isOriginLine
      (fun next hnext => Option.some.inj hnext ▸ he.isOriginLine) hmore

/-- **An instruction.** It goes with the origin that waits. -/
theorem add (h : o.Gathers lines) {line : String} (hline : ¬ IsOriginLine line)
    (hp : (lines ++ [line]).head? ≠ some Dump.placeholder) :
    (o.add (instOn line)).Gathers (lines ++ [line]) := by
  rw [OpenEntry.add]
  cases hw : o.waiting with
  | none =>
    refine ⟨hp, fun insts more hmore => ?_, fun _ hwait => absurd hwait (Option.not_mem_none _)⟩
    rw [List.append_assoc, List.append_assoc]
    refine h.takes _ _ ?_
    rw [hw]
    exact .single hline hmore
  | some w =>
    refine ⟨hp, fun insts more hmore => ?_, fun _ hwait => absurd hwait (Option.not_mem_none _)⟩
    rw [List.append_assoc, List.append_assoc]
    refine h.takes _ _ ?_
    rw [hw]
    exact .stages (h.waiting w hw) hline hmore

end Gathers

/-- **A line of a block** is held with those before it. -/
theorem Holds.next (h : o.Holds lines) {n : Nat} {line : List Char}
    (hn : o.next n line = .ok o') : o'.Holds (lines ++ [String.ofList line]) := by
  rw [OpenEntry.next] at hn
  dsimp only at hn
  cases h with
  | missing hm _ =>
    rw [if_pos hm] at hn
    cases hn
  | insts hm h =>
    rw [if_neg (ne_true_of_eq_false hm)] at hn
    split at hn
    · next hp =>
      obtain rfl := h.isEmpty_iff.1 hp.2
      cases hn
      exact .missing rfl (congrArg (fun l => [l]) hp.1)
    · next hp =>
      have hhead := h.head_concat hp
      split at hn
      · next e he =>
        cases hn
        refine .insts ?_ (h.origin (originOn_iff.2 ?_) hhead)
        · rw [flush_eq]
          exact hm
        · rw [String.toList_ofList]
          exact he
      · next he =>
        cases hn
        refine .insts ?_ (h.add (not_isOriginLine_iff.2 ?_) hhead)
        · rw [OpenEntry.add]
          split <;> exact hm
        · rw [String.toList_ofList]
          exact he

/-- What was said of an entry in front of its block and by its label is kept. -/
theorem next_keeps {n : Nat} {line : List Char} (hn : o.next n line = .ok o') :
    o'.addr = o.addr ∧ o'.start = o.start ∧ o'.number = o.number := by
  rw [OpenEntry.next] at hn
  dsimp only at hn
  split at hn
  · cases hn
  split at hn
  · cases hn
    exact ⟨rfl, rfl, rfl⟩
  split at hn
  · cases hn
    rw [flush_eq]
    exact ⟨rfl, rfl, rfl⟩
  · cases hn
    rw [OpenEntry.add]
    split <;> exact ⟨rfl, rfl, rfl⟩

/-- **The end of a block.** What is held is what the block was read from. -/
theorem Holds.close (h : o.Holds lines) (exits : List Exit) (n : Nat) :
    BlockRead (o.flush.close exits n).insts lines := by
  have hinsts : (o.flush.close exits n).insts = if o.missing then none else some o.flush.insts := by
    rw [flush_eq]
    rfl
  rw [hinsts]
  cases h with
  | missing hm hlines =>
    rw [if_pos hm, hlines]
    exact .missing
  | insts hm h =>
    rw [if_neg (ne_true_of_eq_false hm)]
    exact .insts h.head h.flush

end OpenEntry

end FlowText
