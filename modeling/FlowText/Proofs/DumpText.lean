import FlowText.Proofs.DumpEntries
import FlowText.Proofs.Legible

/-!
# The lines of a dump

The dump of a graph as a list of lines. The entries that it consists of, and the blank lines between
them, add up to these lines (`View.dump_eq`).
-/

namespace FlowText

/-- The text of an operation, which is nothing if its shape is none. -/
def Operation.line (o : Operation) : String :=
  match o.form with
  | .ok form => form.text
  | .error _ => ""

/-- The lines of an instruction that has at most one earlier stage. -/
def Inst.lines (i : Inst) : List String :=
  match i.origins with
  | [] => [i.line]
  | p :: _ => [Dump.originMark ++ p.line, i.line]

/-- The lines of the instructions of a block. -/
def Block.lines (b : Block) : List String := b.insts.flatMap Inst.lines

namespace View

/-- The line in front of an entry. -/
def predText (v : View) (addr : String) : String :=
  let preds := (v.pred addr).mergeSort fun a b => decide (a ≤ b)
  Dump.predMark ++ " [" ++ ", ".intercalate (preds.map Quoted.encode) ++ "]"

/-- The line with the postorder number, if there is one. -/
def numberLines (v : View) (addr : String) : List String :=
  match v.number? addr with
  | some n => [Dump.numberMark ++ " " ++ Radix.dec.unsigned n]
  | none => []

/-- The lines between the label and the exits. -/
def bodyLines (v : View) (addr : String) : List String :=
  match v.block? addr with
  | some b => b.lines
  | none => [Dump.placeholder]

/-- The last line of an entry. -/
def exitsText (v : View) (addr : String) : String :=
  Dump.exitsMark ++ " " ++ Exits.text (v.exits addr)

/-- The lines of an entry. -/
def entryLines (v : View) (addr : String) : List String :=
  v.predText addr :: (v.numberLines addr ++
    (addr ++ ":") :: (v.bodyLines addr ++ [v.exitsText addr]))

/-- The lines of a dump. A blank one stands between two entries. -/
def lines (v : View) : List String :=
  match v.addrs with
  | [] => []
  | first :: more => v.entryLines first ++ more.flatMap fun addr => "" :: v.entryLines addr

end View

/-! ### Operations -/

theorem Operation.verbatim?_eq_some_iff {o : Operation} {t : String} :
    o.verbatim? = some t ↔ o.op = .literal ∧ o.dest = none ∧ o.args = [.verbatim t] := by
  rw [verbatim?]
  split
  · next hop hd ha =>
    simp [hop, hd, ha]
  · next hne =>
    refine ⟨nofun, fun ⟨hop, hd, ha⟩ => ?_⟩
    exact absurd ha (hne t hop hd)

theorem form_of_verbatim? {o : Operation} {t : String} (h : o.verbatim? = some t) :
    o.form = .ok (.literal t) := by
  obtain ⟨hop, hd, ha⟩ := Operation.verbatim?_eq_some_iff.1 h
  rw [Operation.form, hop, hd, ha]

theorem line_of_form {o : Operation} {form : Form} (h : o.form = .ok form) :
    o.line = form.text := by
  rw [Operation.line, h]

theorem line_of_verbatim? {o : Operation} {t : String} (h : o.verbatim? = some t) : o.line = t :=
  line_of_form (form_of_verbatim? h)

/-- A text that stands for itself is no readable operation. -/
theorem Operation.Readable.verbatim?_eq_none {o : Operation} (h : o.Readable) :
    o.verbatim? = none := by
  obtain ⟨dest, op, args, addr, notes⟩ := o
  rw [Operation.Readable] at h
  cases h <;> rfl

/-- An operation that respells another one has its line. -/
theorem Operation.Respells.line {p o : Operation} (h : p.Respells o) : p.line = o.line := by
  have ht := h.text
  rw [Operation.line, Operation.line]
  cases hp : p.form with
  | error e =>
    cases ho : o.form with
    | error e' => rfl
    | ok form =>
      rw [hp, ho] at ht
      cases ht
  | ok form =>
    cases ho : o.form with
    | error e =>
      rw [hp, ho] at ht
      cases ht
    | ok form' =>
      rw [hp, ho] at ht
      exact Except.ok.inj ht

/-! ### Writers -/

theorem writes_operation {o : Operation} {form : Form} (h : o.form = .ok form) :
    Emit.Writes (o.write []) () o.line := by
  rw [line_of_form h, Operation.write]
  exact .lift_bind (mapError_eq_ok_iff.2 h) (Emit.writes_emit form.text)

theorem writes_origin {o p : Operation} {form form' : Form} (ho : o.form = .ok form)
    (hp : p.form = .ok form') :
    Emit.Writes (o.write [p]) () (Dump.originMark ++ p.line ++ "\n" ++ o.line) := by
  have hw := (Emit.writes_emit "// ").seq ((writes_operation hp).seq
    ((Emit.writes_emit "\n").seq (Emit.writes_emit form.text)))
  rw [line_of_form ho, Operation.write]
  refine .lift_bind (mapError_eq_ok_iff.2 ho) (hw.congr ?_)
  simp only [Dump.originMark, String.append_assoc]

/-- **Writable instructions.** The operation has a form, and so has the only earlier stage. -/
structure Inst.Writable (i : Inst) : Prop where
  form : ∃ form, i.form = .ok form
  origins : i.origins = [] ∨ ∃ p, i.origins = [p] ∧ ∃ form, p.form = .ok form

theorem Operation.Readable.exists_form {o : Operation} (h : o.Readable) :
    ∃ form, o.form = .ok form := by
  obtain ⟨form, p, hf, -⟩ := h.ofText
  exact ⟨form, hf⟩

theorem Inst.Legible.writable {i : Inst} (h : i.Legible) : i.Writable := by
  refine ⟨?_, h.origins.imp_right fun ⟨p, ho, hp⟩ => ⟨p, ho, hp.exists_form⟩⟩
  rcases h.body with hr | ⟨t, ht, -⟩
  · exact hr.exists_form
  · exact ⟨_, form_of_verbatim? ht⟩

/-- The canonical form of an instruction consists of its lines. -/
theorem Inst.Writable.canonical {i : Inst} (h : i.Writable) :
    ∃ text, i.canonical = .ok text ∧ text ++ "\n" = unlines i.lines := by
  obtain ⟨form, hf⟩ := h.form
  rcases h.origins with ho | ⟨p, ho, form', hf'⟩
  · have hw := writes_operation hf
    refine ⟨i.line, ?_, by rw [Inst.lines, ho, unlines_singleton]⟩
    rw [Inst.canonical, Inst.write, ho, Emit.text_of_writes hw]
  · have hw := writes_origin hf hf'
    refine ⟨Dump.originMark ++ p.line ++ "\n" ++ i.line, ?_, ?_⟩
    · rw [Inst.canonical, Inst.write, ho, Emit.text_of_writes hw]
    · rw [Inst.lines, ho]
      simp only [unlines, String.append_assoc, String.append_empty]

/-- The renderer that a dump uses unless it is told otherwise. -/
abbrev canonicalRenderer : Renderer := Layout.render {}

theorem shown_of_writable {b : Block} (h : ∀ i ∈ b.insts, i.Writable) :
    ∃ texts, b.shown canonicalRenderer = .ok texts ∧ unlines texts = unlines b.lines := by
  obtain ⟨addr, insts⟩ := b
  induction insts with
  | nil => exact ⟨[], rfl, rfl⟩
  | cons i insts ih =>
    obtain ⟨hi, hinsts⟩ := List.forall_mem_cons.1 h
    obtain ⟨text, ht, hl⟩ := hi.canonical
    obtain ⟨texts, hshown, hlines⟩ := ih hinsts
    have hrender : canonicalRenderer i = .ok (some text) := by
      change i.canonical.map some = _
      rw [ht]
      rfl
    have hcons : (Block.mk addr (i :: insts)).lines = i.lines ++ (Block.mk addr insts).lines :=
      List.flatMap_cons
    refine ⟨text :: texts, ?_, ?_⟩
    · rw [shown_cons, hrender, hshown]
      rfl
    · rw [hcons, unlines_append, ← hlines, ← hl]
      rfl

/-- A blank line between texts is one more line in front of each but the first. -/
theorem intercalate_unlines (ls : List String) (more : List (List String)) :
    "\n".intercalate ((ls :: more).map unlines) = unlines (ls ++ more.flatMap ("" :: ·)) := by
  induction more generalizing ls with
  | nil => simp
  | cons ms more ih =>
    have hblank : unlines ("" :: ms) = "\n" ++ unlines ms := by
      rw [unlines, String.empty_append]
    rw [List.map_cons, List.map_cons, String.intercalate_cons_cons, ← List.map_cons, ih,
      List.flatMap_cons, unlines_append, unlines_append, unlines_append, hblank]
    simp only [String.append_assoc]

namespace View

theorem entry_of_writable {v : View} {addr : String}
    (h : ∀ b ∈ v.block? addr, ∀ i ∈ b.insts, i.Writable) :
    v.entry canonicalRenderer addr = .ok (unlines (v.entryLines addr)) := by
  have hpred : v.predLine addr = v.predText addr ++ "\n" := by
    simp only [predLine, predText, String.append_assoc]
    rfl
  have hlabel : addr ++ ":\n" = addr ++ ":" ++ "\n" := by
    rw [String.append_assoc]
    rfl
  have hexits : v.exitsLine addr = v.exitsText addr ++ "\n" := rfl
  have hnumber : v.numberLine addr = unlines (v.numberLines addr) := by
    rw [numberLine, numberLines]
    cases v.number? addr with
    | none => rfl
    | some n => rw [unlines_singleton]
  have hbody : v.bodyText canonicalRenderer addr = .ok (unlines (v.bodyLines addr)) := by
    rw [bodyText, bodyLines]
    cases hb : v.block? addr with
    | none => rw [unlines_singleton]
    | some b =>
      obtain ⟨texts, hshown, hlines⟩ := shown_of_writable (h b hb)
      change (b.shown canonicalRenderer).map unlines = _
      rw [hshown, ← hlines]
      rfl
  rw [entry, hbody, hpred, hlabel, hexits, hnumber, entryLines]
  simp only [Except.map, unlines, unlines_append, String.append_empty, String.append_assoc]

/-- **The dump is its lines.** -/
theorem dump_eq {v : View} (h : ∀ a ∈ v.addrs, ∀ b ∈ v.block? a, ∀ i ∈ b.insts, i.Writable) :
    v.dump canonicalRenderer = .ok (unlines v.lines) := by
  have hentries : v.addrs.mapM (v.entry canonicalRenderer) =
      .ok ((v.addrs.map v.entryLines).map unlines) := by
    rw [mapM_congr_of_mem fun a ha => entry_of_writable (h a ha), List.map_map]
    exact List.mapM_pure
  have hlines : "\n".intercalate ((v.addrs.map v.entryLines).map unlines) = unlines v.lines := by
    rw [lines]
    cases v.addrs with
    | nil => rfl
    | cons first more => rw [List.map_cons, intercalate_unlines, List.flatMap_map]
  rw [dump_eq_entries, hentries, ← hlines]
  rfl

theorem Legible.dump {v : View} (h : v.Legible) :
    v.dump canonicalRenderer = .ok (unlines v.lines) :=
  dump_eq fun a ha b hb i hi => ((h.block a ha b hb).each i hi).writable

end View

end FlowText
