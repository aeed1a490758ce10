import FlowText.Dump
import FlowText.Proofs.Results
import FlowText.Proofs.TextLines
import FlowText.Proofs.Writing

/-!
# A dump is its entries

Writers put together from pieces end with a text or with an error, and which one it is follows from
their parts (`Emit.Yields`). So the dump of a view is the text of its entries, one for each address
in the order of the view, or the first error of one of them (`View.dump_eq_entries`), whatever the
renderer shows or refuses.
-/

namespace FlowText

/-! ### Writers that may fail -/

namespace Emit

variable {α β : Type}

/-- **Fails.** Where there is room for everything, the writer ends with the error. -/
def Fails (m : Emit α) (e : Error) : Prop :=
  ∀ kept : String, ∃ s, (ExceptT.run m).run ⟨kept, none⟩ = (.error e, s)

theorem fails_lift {x : Except Error α} {e : Error} (h : x = .error e) : Fails (liftM x) e :=
  fun kept => ⟨⟨kept, none⟩, by rw [h]; rfl⟩

/-- Nothing comes behind a failure. -/
theorem Fails.bind {m : Emit α} {e : Error} (h : Fails m e) (f : α → Emit β) :
    Fails (m >>= f) e := by
  intro kept
  obtain ⟨s, hs⟩ := h kept
  refine ⟨s, ?_⟩
  rw [ExceptT.run_bind, StateT.run_bind, hs]
  rfl

theorem Writes.bind_fails {m : Emit α} {f : α → Emit β} {a : α} {t : String} {e : Error}
    (hm : Writes m a t) (hf : Fails (f a) e) : Fails (m >>= f) e := by
  intro kept
  obtain ⟨s, hs⟩ := hf (kept ++ t)
  refine ⟨s, ?_⟩
  rw [ExceptT.run_bind, StateT.run_bind, hm kept]
  exact hs

/-- **Yields.** The writer writes the text or fails with the error. -/
def Yields (m : Emit Unit) : Except Error String → Prop
  | .ok t => Writes m () t
  | .error e => Fails m e

theorem Yields.congr {m : Emit Unit} {r s : Except Error String} (h : Yields m r) (he : r = s) :
    Yields m s :=
  he ▸ h

theorem yields_emit (piece : String) : Yields (emit piece) (.ok piece) := writes_emit piece

theorem yields_pure : Yields (pure ()) (.ok "") := writes_pure ()

/-- **In a row.** The texts stand one behind the other, up to the first error. -/
theorem Yields.seq {m n : Emit Unit} {r s : Except Error String} (hm : Yields m r)
    (hn : Yields n s) : Yields (m >>= fun _ => n) (r.bind fun t => s.map (t ++ ·)) := by
  cases r with
  | error e => exact Fails.bind hm _
  | ok t =>
    cases s with
    | error e => exact Writes.bind_fails hm hn
    | ok u => exact Writes.seq hm hn

/-- What may fail before anything is written goes in front of a writer. -/
theorem Yields.lift_bind {x : Except Error α} {f : α → Emit Unit} {r : α → Except Error String}
    (h : ∀ a, Yields (f a) (r a)) : Yields (liftM x >>= f) (x.bind r) := by
  cases x with
  | error e => exact (fails_lift rfl).bind f
  | ok a =>
    change Yields _ (r a)
    have hf := h a
    cases hr : r a with
    | error e =>
      rw [hr] at hf
      exact (writes_lift rfl).bind_fails hf
    | ok t =>
      rw [hr] at hf
      exact Writes.lift_bind rfl hf

theorem text_of_yields {m : Emit Unit} {r : Except Error String} (h : Yields m r) : m.text = r := by
  cases r with
  | ok t => exact text_of_writes h
  | error e =>
    obtain ⟨s, hs⟩ := h ""
    have hinto : m.into {} = (.error e, s) := hs
    rw [text, hinto]
    rfl

end Emit

/-! ### Blocks -/

theorem shown_cons (addr : String) (i : Inst) (insts : List Inst) (render : Renderer) :
    (Block.mk addr (i :: insts)).shown render = (render i).bind fun shown =>
      ((Block.mk addr insts).shown render).map (shown.toList ++ ·) := by
  rw [Block.shown, Block.shown, List.mapM_cons]
  cases render i with
  | error e => rfl
  | ok shown =>
    cases insts.mapM render with
    | error e => rfl
    | ok more => cases shown <;> rfl

/-- A block is written as the texts that are shown, one line for each. -/
theorem yields_block (b : Block) (render : Renderer) :
    Emit.Yields (b.write 0 render) ((b.shown render).map unlines) := by
  obtain ⟨addr, insts⟩ := b
  induction insts with
  | nil => exact Emit.yields_pure
  | cons i insts ih =>
    have hwrite : (Block.mk addr (i :: insts)).write 0 render = _ := List.forM_cons
    rw [hwrite]
    refine ((Emit.Yields.lift_bind (x := render i) (r := fun shown => .ok (unlines shown.toList))
      fun shown => ?_).seq ih).congr ?_
    · cases shown with
      | none => exact Emit.yields_pure
      | some text =>
        have hw := (Emit.yields_emit (String.ofList (List.replicate (2 * 0) ' '))).seq
          ((Emit.yields_emit text).seq (Emit.yields_emit "\n"))
        simpa [Except.bind, Except.map, unlines_singleton] using hw
    rw [shown_cons]
    cases render i with
    | error e => rfl
    | ok shown =>
      cases (Block.mk addr insts).shown render with
      | error e => rfl
      | ok texts => simp [Except.bind, Except.map, unlines_append]

namespace View

/-- The text between the label and the exits. -/
def bodyText (v : View) (render : Renderer) (addr : String) : Except Error String :=
  match v.block? addr with
  | some b => (b.shown render).map unlines
  | none => .ok (Dump.placeholder ++ "\n")

/-- **Entry.** The text of an entry, if the renderer refuses no instruction of its block. -/
def entry (v : View) (render : Renderer) (addr : String) : Except Error String :=
  (v.bodyText render addr).map fun body =>
    v.predLine addr ++ v.numberLine addr ++ (addr ++ ":\n") ++ body ++ v.exitsLine addr

theorem yields_entry (v : View) (render : Renderer) (addr : String) :
    Emit.Yields (v.writeEntry render addr) (v.entry render addr) := by
  -- the label and the lines in front of it go first, and do not fail
  have hstart : ∀ {body : Emit Unit} {r : Except Error String}, Emit.Yields body r →
      Emit.Yields
        (do
          emit (v.predLine addr)
          emit (v.numberLine addr)
          emit (addr ++ ":\n")
          body
          emit (v.exitsLine addr))
        (r.map fun body =>
          v.predLine addr ++ v.numberLine addr ++ (addr ++ ":\n") ++ body ++ v.exitsLine addr) := by
    intro body r hbody
    have hw := (Emit.yields_emit (v.predLine addr)).seq ((Emit.yields_emit (v.numberLine addr)).seq
      ((Emit.yields_emit (addr ++ ":\n")).seq (hbody.seq (Emit.yields_emit (v.exitsLine addr)))))
    refine hw.congr ?_
    cases r with
    | error e => rfl
    | ok body => simp only [Except.bind, Except.map, String.append_assoc]
  rw [entry, bodyText, writeEntry]
  cases v.block? addr with
  | some b => exact hstart (yields_block b render)
  | none => exact hstart (Emit.yields_emit _)

/-- Entries behind a first one. The induction is on the entries that are left. -/
theorem yields_entries (v : View) (render : Renderer) (first : String) (more : List String) :
    Emit.Yields
      (do
        v.writeEntry render first
        more.forM fun addr => do
          emit "\n"
          v.writeEntry render addr)
      (((first :: more).mapM (v.entry render)).map "\n".intercalate) := by
  induction more generalizing first with
  | nil =>
    refine ((v.yields_entry render first).seq Emit.yields_pure).congr ?_
    rw [List.mapM_cons, List.mapM_nil]
    cases v.entry render first with
    | error e => rfl
    | ok t => simp [Except.bind, Except.map, bind, pure, Except.pure]
  | cons second more ih =>
    have hw := (v.yields_entry render first).seq ((Emit.yields_emit "\n").seq (ih second))
    simp only [List.forM_eq_forM, List.forM_cons, bind_assoc]
    refine hw.congr ?_
    simp only [List.mapM_cons]
    cases v.entry render first with
    | error e => rfl
    | ok t =>
      cases v.entry render second with
      | error e => rfl
      | ok u =>
        cases more.mapM (v.entry render) with
        | error e => rfl
        | ok us =>
          simp [Except.bind, Except.map, bind, pure, Except.pure, String.intercalate_cons_cons,
            String.append_assoc]

/-- **The dump is its entries.** -/
theorem dump_eq_entries (v : View) (render : Renderer) :
    v.dump render = (v.addrs.mapM (v.entry render)).map "\n".intercalate := by
  refine Emit.text_of_yields ?_
  rw [write]
  cases v.addrs with
  | nil => exact Emit.yields_pure
  | cons first more => exact v.yields_entries render first more

end View

end FlowText
