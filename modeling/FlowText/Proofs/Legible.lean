import FlowText.Dump.Read
import FlowText.Proofs.Links
import FlowText.Proofs.ReadBack

/-!
# Legible graphs

What has to hold of a graph so that its dump says all of it. A dump is read line by line, and a line
means what it looks like: text that stands for itself must not look like an instruction, a list of
exits or a placeholder, and an address must not look like one of the marks in front of it.

* `IsLabel` — an address that is a label on a line of its own.
* `Inst.Legible`, `LegibleList` — instructions whose lines are read as these instructions.
* `View.Legible`, `View.Coherent` — what is asked of a whole graph. Every graph is coherent whose
  blocks stand at their own addresses (`coherent_view`).
-/

namespace FlowText

/-! ### Labels -/

/-- **Labels.** The address does not start with a blank, and the line that it makes up with its
colon is none of the lines that may stand in front of a label. -/
def IsLabel (addr : String) : Prop :=
  addr.toList.head?.any (fun c => !isBlank c) = true ∧
    ¬ Dump.predMark.toList <+: addr.toList ++ [':'] ∧
    ¬ Dump.numberMark.toList <+: addr.toList ++ [':']

instance (addr : String) : Decidable (IsLabel addr) :=
  inferInstanceAs (Decidable (_ ∧ ¬ _ ∧ ¬ _))

/-! ### Instructions -/

/-- The text that the operation stands for, if it does so alone. -/
def Operation.verbatim? (o : Operation) : Option String :=
  match o.op, o.dest, o.args with
  | .literal, none, [.verbatim t] => some t
  | _, _, _ => none

/-- **Verbatim texts.** The text is one line, and that line is neither an instruction nor a list of
exits. -/
structure IsVerbatim (text : String) : Prop where
  one_line : '\n' ∉ text.toList
  no_exits : ¬ Dump.exitsMark.toList <+: text.toList
  no_inst : ∀ i, Inst.ofText text ≠ .ok i

/-- The line holds an instruction behind the mark for an earlier stage. -/
def IsOriginLine (text : String) : Prop := (Reading.originOf? text.toList).isSome = true

namespace Inst

/-- **Dangling.** The instruction stands for a line that would be the origin of what follows. -/
def IsDangling (i : Inst) : Prop := i.origins = [] ∧ ∃ t ∈ i.verbatim?, IsOriginLine t

/-- The first line of the instruction holds an instruction behind the mark for an earlier stage. -/
def IsMarked (i : Inst) : Prop := i.origins ≠ [] ∨ i.IsDangling

/-- **Legible instructions.** A readable operation or a verbatim text, with at most one earlier
stage, which is readable. -/
structure Legible (i : Inst) : Prop where
  origins : i.origins = [] ∨ ∃ p, i.origins = [p] ∧ p.Readable
  body : i.toOperation.Readable ∨
    ∃ t, i.verbatim? = some t ∧ IsVerbatim t ∧ (i.origins ≠ [] → ¬ IsOriginLine t)

/-- No verbatim text of the instruction ends with a carriage return. -/
def EndsPlain (i : Inst) : Prop := ∀ t ∈ i.verbatim?, t.toList.getLast? ≠ some '\r'

instance (i : Inst) : Decidable i.EndsPlain := inferInstanceAs (Decidable (∀ t ∈ i.verbatim?, _))

end Inst

/-- **Legible lists.** What looks like an origin is followed by another one, or by nothing. -/
structure LegibleList (insts : List Inst) : Prop where
  each : ∀ i ∈ insts, i.Legible
  chain : insts.IsChain fun i j => i.IsDangling → j.IsMarked

/-- The first instruction looks like the placeholder of a missing block. -/
def Shadows (insts : List Inst) : Prop :=
  ∃ i ∈ insts.head?, i.origins = [] ∧ i.verbatim? = some Dump.placeholder

instance (insts : List Inst) : Decidable (Shadows insts) :=
  inferInstanceAs (Decidable (∃ i ∈ insts.head?, _))

/-! ### Graphs -/

namespace View

/-- **Coherent views.** The addresses stand in natural order, each once; the two ends of every edge
know of it; a block stands at its address. -/
structure Coherent (v : View) : Prop where
  sorted : v.addrs.Pairwise fun a b => notBehind a b = true
  nodup : v.addrs.Nodup
  succ_mem : ∀ a ∈ v.addrs, ∀ b ∈ v.succ a, b ∈ v.addrs
  succ_nodup : ∀ a ∈ v.addrs, (v.succ a).Nodup
  pred_perm : ∀ a ∈ v.addrs, (v.pred a).Perm (v.addrs.filter fun b => a ∈ v.succ b)
  block_addr : ∀ a ∈ v.addrs, ∀ b ∈ v.block? a, b.addr = a

/-- **Legible views**, up to what a look at the labels and at the ends of lines tells. -/
structure Legible (v : View) : Prop where
  one_line : ∀ a ∈ v.addrs, '\n' ∉ a.toList
  number_lt : ∀ a ∈ v.addrs, ∀ n ∈ v.number? a, n < wordLimit
  cond : ∀ a ∈ v.addrs, ∀ b ∈ v.succ a, ∀ c ∈ v.edgeCond? a b, c.Readable
  block : ∀ a ∈ v.addrs, ∀ b ∈ v.block? a, LegibleList b.insts

/-- The dump shows the labels and the placeholders of the view, and nothing else looks like them. -/
structure Unambiguous (v : View) : Prop where
  label : ∀ a ∈ v.addrs, IsLabel a
  unshadowed : ∀ a ∈ v.addrs, ∀ b ∈ v.block? a, ¬ Shadows b.insts

/-- No verbatim text in a block ends with a carriage return. -/
def EndsPlain (v : View) : Prop :=
  ∀ a ∈ v.addrs, ∀ b ∈ v.block? a, ∀ i ∈ b.insts, i.EndsPlain

end View

theorem coherent_view {g : Cfg} (hb : ∀ n ∈ g.nodes, ∀ b ∈ n.block, b.addr = n.addr) :
    g.view.Coherent where
  sorted := by
    change g.sortedAddrs.Pairwise _
    rw [Cfg.sortedAddrs_eq]
    exact pairwise_sortByName id _
  nodup := g.nodup_sortedAddrs
  succ_mem _ _ _ hb := (Cfg.mem_sortedAddrs_of_succ hb).2
  succ_nodup a _ := g.nodup_succ a
  pred_perm a _ := by
    refine (List.perm_ext_iff_of_nodup (g.nodup_pred a) (g.nodup_sortedAddrs.filter _)).2 ?_
    intro b
    rw [Cfg.mem_pred_iff, List.mem_filter, decide_eq_true_eq]
    exact ⟨fun h => ⟨(Cfg.mem_sortedAddrs_of_succ h).1, h⟩, And.right⟩
  block_addr a _ b h := by
    obtain ⟨n, hn, hnb⟩ := Option.bind_eq_some_iff.1 h
    obtain ⟨hm, rfl⟩ := Cfg.node?_eq_some_iff.1 hn
    exact hb n hm b hnb

end FlowText
