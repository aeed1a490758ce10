import FlowText.Proofs.Pieces
import Mathlib

/-!
# Sinks that fail

What a piecewise writer does is fixed before it meets a sink: it has a row of pieces, and it knows
how it ends once they are all taken (`IsRow`). A sink has no say in this but to refuse a piece, and
then the writer stops there, with the error of the sink (`Row.feed_cases`).

So a sink with room for a few characters keeps just as much of the text as it has room for
(`KeepsPrefix.of_row`): dumps, blocks and instructions are written in rows.
-/

namespace FlowText

/-- A piecewise writer for sinks of every kind. -/
abbrev Feeder := ∀ σ : Type, (String → EmitTo σ Unit) → EmitTo σ Unit

/-- Pieces, and how a writer ends that has handed over all of them. -/
structure Row where
  /-- the pieces, in order -/
  pieces : List String
  /-- the result if no piece is refused -/
  result : Except Error Unit

namespace Row

/-- The text of all pieces. -/
def text (r : Row) : String := String.join r.pieces

/-- Hands over the pieces. -/
def feed (r : Row) : Feeder := fun _ put => do
  r.pieces.forM put
  liftM r.result

/-- **A refused piece is the last one.** Either the sink takes all pieces and the writer ends as the
row tells, or the writer ends with the error of the first piece that is refused, and no piece behind
it reaches the sink. The induction is on the pieces. -/
theorem feed_cases (r : Row) {σ : Type} (put : String → EmitTo σ Unit) (s : σ) :
    (∃ t, r.pieces.forM put s = (.ok (), t) ∧ r.feed σ put s = (r.result, t)) ∨
    ∃ taken refused left t u e, r.pieces = taken ++ refused :: left ∧
      taken.forM put s = (.ok (), t) ∧ put refused t = (.error e, u) ∧
      r.feed σ put s = (.error e, u) := by
  obtain ⟨pieces, result⟩ := r
  induction pieces generalizing s with
  | nil => exact .inl ⟨s, rfl, by cases result <;> rfl⟩
  | cons p ps ih =>
    have hfeed : (Row.mk (p :: ps) result).feed σ put =
        put p >>= fun _ => (Row.mk ps result).feed σ put := by
      simp only [feed, List.forM_eq_forM, List.forM_cons, bind_assoc]
    rw [hfeed]
    rcases hp : put p s with ⟨_ | ⟨⟨⟩⟩, t⟩
    case error e =>
      exact .inr ⟨[], p, ps, s, t, e, rfl, rfl, hp, EmitTo.bind_of_error hp⟩
    case ok =>
      have hcons (qs : List String) : (p :: qs).forM put s = qs.forM put t := by
        rw [List.forM_eq_forM, List.forM_cons, EmitTo.bind_of_ok hp]
      rw [hcons, EmitTo.bind_of_ok hp]
      rcases ih t with hall | ⟨taken, refused, left, t', u, e, hps, htaken, hput, hend⟩
      · exact .inl hall
      · exact .inr ⟨p :: taken, refused, left, t', u, e, congrArg (p :: ·) hps,
          by rw [hcons, htaken], hput, hend⟩

/-- In front of a sink with limited room, the pieces are one text. -/
theorem feed_emit (r : Row) : r.feed Sink emit = emit r.text >>= fun _ => liftM r.result := by
  have hpieces (ps : List String) : ps.forM emit = emit (String.join ps) := by
    induction ps with
    | nil => exact Emit.emit_empty.symm
    | cons p ps ih =>
      rw [List.forM_eq_forM] at ih ⊢
      rw [List.forM_cons, ih, String.join_cons, Emit.emit_append]
  rw [feed, hpieces, text]

end Row

/-! ### Writers that are rows -/

/-- **Row.** What the writer hands over, and how it ends, does not depend on the sink. -/
def IsRow (w : Feeder) : Prop := ∃ r : Row, w = r.feed

namespace IsRow

variable {α : Type} {m n : Feeder}

/-- Writers that do the same are rows alike. -/
theorem of_eq (h : IsRow m) (he : ∀ σ put, n σ put = m σ put) : IsRow n :=
  (funext fun σ => funext (he σ) : n = m) ▸ h

theorem pure : IsRow fun _ _ => Pure.pure () := ⟨⟨[], .ok ()⟩, rfl⟩

/-- **One piece** is a row. -/
theorem put (piece : String) : IsRow fun _ put => put piece :=
  ⟨⟨[piece], .ok ()⟩, by
    funext σ put
    change put piece = [piece].forM put >>= fun _ => Pure.pure ()
    rw [List.forM_eq_forM, List.forM_cons, List.forM_nil, bind_pure_unit, bind_pure_unit]⟩

/-- In a row. A writer that ends with an error on its own leaves nothing to do for the next one. -/
theorem seq (hm : IsRow m) (hn : IsRow n) : IsRow fun σ put => m σ put >>= fun _ => n σ put := by
  obtain ⟨⟨ps, result⟩, rfl⟩ := hm
  obtain ⟨⟨qs, last⟩, rfl⟩ := hn
  cases result with
  | error e =>
    refine ⟨⟨ps, .error e⟩, funext fun σ => funext fun put => ?_⟩
    exact bind_assoc _ _ _
  | ok u =>
    refine ⟨⟨ps ++ qs, last⟩, funext fun σ => funext fun put => ?_⟩
    simp only [Row.feed, List.forM_eq_forM, List.forM_append, bind_assoc]
    rfl

/-- What may fail before anything is handed over goes in front. -/
theorem lift_bind (x : Except Error α) {f : α → Feeder} (h : ∀ a, IsRow (f a)) :
    IsRow fun σ put => liftM x >>= fun a => f a σ put := by
  cases x with
  | error e => exact ⟨⟨[], .error e⟩, rfl⟩
  | ok a => exact h a

/-- **One writer after the other** is a row. -/
theorem forM {f : α → Feeder} (h : ∀ a, IsRow (f a)) (items : List α) :
    IsRow fun σ put => items.forM fun a => f a σ put := by
  induction items with
  | nil => exact .pure
  | cons a items ih => exact (h a).seq ih

/-- **Writers with a mark between them** are a row. -/
theorem between {f : α → Feeder} (h : ∀ a, IsRow (f a)) (mark : String) (items : List α) :
    IsRow fun σ put => feedBetween put mark (fun a => f a σ put) items := by
  cases items with
  | nil => exact .pure
  | cons a more => exact (h a).seq (.forM (fun b => (IsRow.put mark).seq (h b)) more)

end IsRow

open IsRow (seq lift_bind between)

/-- **Every writer is a row.** Expressions. -/
theorem Expr.isRow_feed (e : Expr) : IsRow fun _ put => e.feed put := by
  induction e with
  | reg name c => exact (IsRow.put c).seq ((IsRow.put "$").seq (.put name))
  | value w r c => exact (IsRow.put c).seq (.put _)
  | addr a c => exact (IsRow.put c).seq (.put a)
  | mem ty base o c ih =>
    refine (IsRow.put c).seq ((IsRow.put "*(").seq ((IsRow.put ty).seq ((IsRow.put "*)").seq ?_)))
    split
    · exact ih
    · exact (IsRow.put "(").seq (ih.seq ((IsRow.put _).seq ((IsRow.put _).seq (.put ")"))))
  | synthetic name c => exact (IsRow.put c).seq (.put name)

mutual

/-- Conditions, by recursion over what stands in them. -/
theorem Cond.isRow_feed : (c : Cond) → IsRow fun _ put => c.feed put
  | .simple lhs op rhs =>
    (IsRow.put "(").seq (lhs.isRow_feed.seq ((IsRow.put " ").seq ((IsRow.put op.symbol).seq
      ((IsRow.put " ").seq (rhs.isRow_feed.seq (.put ")"))))))
  | .compound chain => (IsRow.put "(").seq (chain.isRow_feed.seq (.put ")"))

/-- The chains of compounds. -/
theorem Chain.isRow_feed : (c : Chain) → IsRow fun _ put => c.feed put
  | .single c => c.isRow_feed
  | .join chain op c =>
    chain.isRow_feed.seq ((IsRow.put " ").seq
      ((IsRow.put op.symbol).seq ((IsRow.put " ").seq c.isRow_feed)))

end

/-- Arguments. -/
theorem Arg.isRow_feed (a : Arg) : IsRow fun _ put => a.feed put := by
  cases a with
  | expr e => exact e.isRow_feed
  | cond c => exact c.isRow_feed
  | verbatim t => exact .put t

/-- Forms. -/
theorem Form.isRow_feed (f : Form) : IsRow fun _ put => f.feed put := by
  cases f with
  | literal t => exact .put t
  | ret => exact .put "return"
  | goto a => exact (IsRow.put "goto ").seq a.isRow_feed
  | call a => exact (IsRow.put "call ").seq a.isRow_feed
  | assign d a => exact d.isRow_feed.seq ((IsRow.put " = ").seq a.isRow_feed)
  | binary d op a b =>
    cases hu : updates d a with
    | true =>
      refine .of_eq (d.isRow_feed.seq ((IsRow.put " ").seq ((IsRow.put op.symbol).seq
        ((IsRow.put "= ").seq b.isRow_feed)))) fun σ put => ?_
      rw [feed, if_pos hu]
    | false =>
      refine .of_eq (d.isRow_feed.seq ((IsRow.put " = ").seq (a.isRow_feed.seq ((IsRow.put " ").seq
        ((IsRow.put op.symbol).seq ((IsRow.put " ").seq b.isRow_feed)))))) fun σ put => ?_
      rw [feed, if_neg (by simp [hu])]
  | apply d name args =>
    have hcall :=
      (IsRow.put name).seq ((IsRow.put "(").seq ((between Arg.isRow_feed ", " args).seq (.put ")")))
    cases d with
    | none => exact IsRow.pure.seq hcall
    | some d => exact (d.isRow_feed.seq (.put " = ")).seq hcall

/-- Instructions with their earlier stages. -/
theorem Operation.isRow_feed (o : Operation) (origins : List Operation) :
    IsRow fun _ put => o.feed put origins := by
  induction origins generalizing o with
  | nil => exact lift_bind _ Form.isRow_feed
  | cons p ps ih =>
    exact lift_bind _ fun form => (IsRow.put "// ").seq
      ((ih p).seq ((IsRow.put "\n").seq form.isRow_feed))

/-- Instructions. -/
theorem Inst.isRow_feed (i : Inst) : IsRow fun _ put => i.feed put :=
  i.toOperation.isRow_feed i.origins

/-- Blocks, for every renderer. -/
theorem Block.isRow_feed (b : Block) (indent : Nat) (render : Renderer) :
    IsRow fun _ put => b.feed put indent render := by
  refine IsRow.forM (fun i => ?_) b.insts
  refine lift_bind (render i) fun shown => ?_
  cases shown with
  | none => exact .pure
  | some text => exact (IsRow.put _).seq ((IsRow.put text).seq (.put "\n"))

/-- Quoted texts. -/
theorem Quoted.isRow_feed (t : String) : IsRow fun _ put => Quoted.feed put t := by
  have hchar (c : Char) : IsRow fun _ put => feedChar put c := by
    unfold feedChar
    split
    · exact (IsRow.put "\\").seq (.put _)
    · exact .put _
  exact (IsRow.put _).seq ((IsRow.forM hchar t.toList).seq (.put _))

/-- Exits. -/
theorem Exits.isRow_feedExit (x : Exit) : IsRow fun _ put => Exits.feedExit put x := by
  obtain ⟨cond, addr⟩ := x
  have hbehind := (IsRow.put ", ").seq ((Quoted.isRow_feed addr).seq (.put ")"))
  cases cond with
  | none => exact (IsRow.put "(").seq ((IsRow.put noCond).seq hbehind)
  | some cond => exact (IsRow.put "(").seq ((Quoted.isRow_feed cond).seq hbehind)

namespace View

variable (v : View) (render : Renderer)

/-- Entries of a dump. -/
theorem isRow_feedEntry (addr : String) : IsRow fun _ put => v.feedEntry put render addr := by
  have hpreds := between Quoted.isRow_feed ", " ((v.pred addr).mergeSort fun a b => decide (a ≤ b))
  have hexits := between Exits.isRow_feedExit ", " (v.exits addr)
  have hbody : IsRow fun _ put => v.feedBody put render addr := by
    unfold feedBody
    cases v.block? addr with
    | some b => exact b.isRow_feed 0 render
    | none => exact (IsRow.put _).seq (.put "\n")
  have hnumber : IsRow fun _ put => v.feedNumber put addr := by
    unfold feedNumber
    cases v.number? addr with
    | none => exact .pure
    | some n => exact (IsRow.put _).seq ((IsRow.put _).seq (.put "\n"))
  exact (IsRow.put (Dump.predMark ++ " [")).seq (hpreds.seq ((IsRow.put "]\n").seq (hnumber.seq
    ((IsRow.put addr).seq ((IsRow.put ":\n").seq
      (hbody.seq ((IsRow.put (Dump.exitsMark ++ " [")).seq (hexits.seq (.put "]\n")))))))))

/-- **Whole dumps.** -/
theorem isRow_feed : IsRow fun _ put => v.feed put render := by
  unfold feed
  cases v.addrs with
  | nil => exact .pure
  | cons first more =>
    exact (v.isRow_feedEntry render first).seq
      (.forM (fun addr => (IsRow.put "\n").seq (v.isRow_feedEntry render addr)) more)

end View

/-! ### What a limited sink keeps -/

/-- **Keeps a prefix.** What becomes of a row of pieces in the sinks that its writer meets. The
writer is given as it runs, and piece by piece. -/
structure Row.KeepsPrefix (r : Row) (write : Emit Unit) (feed : Feeder) : Prop where
  /-- both are the same writer -/
  same : feed Sink emit = write
  /-- with room for everything, all is written, be the end good or bad -/
  unlimited : write.into {} = (r.result, ⟨r.text, none⟩)
  /-- a sink with just enough room makes no difference -/
  fits : ∀ n, r.text.length ≤ n →
    write.into (.limited n) = (r.result, ⟨r.text, some (n - r.text.length)⟩)
  /-- a smaller one is filled up, and the failure is reported -/
  cut : ∀ n, n < r.text.length →
    write.into (.limited n) = (.error .format, ⟨String.ofList (r.text.toList.take n), some 0⟩)
  /-- whatever the sink, nothing reaches it behind a refused piece, and its error is the result -/
  stops : ∀ (σ : Type) (put : String → EmitTo σ Unit) (s : σ),
    (∃ t, r.pieces.forM put s = (.ok (), t) ∧ feed σ put s = (r.result, t)) ∨
    ∃ taken refused left t u e, r.pieces = taken ++ refused :: left ∧
      taken.forM put s = (.ok (), t) ∧ put refused t = (.error e, u) ∧ feed σ put s = (.error e, u)

/-- Every row does. -/
theorem IsRow.keepsPrefix {write : Emit Unit} {feed : Feeder} (hrow : IsRow feed)
    (h : feed Sink emit = write) : ∃ r : Row, r.KeepsPrefix write feed := by
  obtain ⟨r, rfl⟩ := hrow
  have hwrite : write = emit r.text >>= fun _ => liftM r.result := h.symm.trans r.feed_emit
  have hresult (s : Sink) : (liftM r.result : Emit Unit) s = (r.result, s) := by
    cases r.result <;> rfl
  refine ⟨r, h, ?_, fun n hn => ?_, fun n hn => ?_, fun σ put s => r.feed_cases put s⟩
  · have hall : emit r.text {} = (.ok (), ⟨"" ++ r.text, none⟩) := rfl
    rw [String.empty_append] at hall
    rw [hwrite, ← hresult]
    exact EmitTo.bind_of_ok hall
  · have hall : emit r.text (.limited n) = (.ok (), ⟨"" ++ r.text, some (n - r.text.length)⟩) :=
      Sink.put_of_le hn
    rw [String.empty_append] at hall
    rw [hwrite, ← hresult]
    exact EmitTo.bind_of_ok hall
  · have hpart : emit r.text (.limited n) =
        (.error .format, ⟨"" ++ String.ofList (r.text.toList.take n), some 0⟩) :=
      Sink.put_of_lt hn
    rw [String.empty_append] at hpart
    rw [hwrite]
    exact EmitTo.bind_of_error hpart

/-- **A limited sink keeps just as much of the text as it has room for**, be it the text of a graph,
a block or an instruction. Where there is room for all of it, the result is the same as without a
limit; where there is not, the writer stops at the first piece that does not fit and reports
that. -/
theorem limited_sinks_keep_prefixes :
    (∀ (v : View) (render : Renderer), ∃ r : Row,
      r.KeepsPrefix (v.write render) fun _ put => v.feed put render) ∧
    (∀ (b : Block) (indent : Nat) (render : Renderer), ∃ r : Row,
      r.KeepsPrefix (b.write indent render) fun _ put => b.feed put indent render) ∧
    ∀ i : Inst, ∃ r : Row, r.KeepsPrefix i.write fun _ put => i.feed put :=
  ⟨fun v render => (v.isRow_feed render).keepsPrefix (v.feed_emit render),
    fun b indent render => (b.isRow_feed indent render).keepsPrefix (b.feed_emit indent render),
    fun i => i.isRow_feed.keepsPrefix i.feed_emit⟩

/-- Of the target of a jump there is room for two characters only. -/
theorem jump_cut_short : (Inst.goto (.addr "blk2")).write.into {} = (.ok (), ⟨"goto blk2", none⟩) ∧
    (Inst.goto (.addr "blk2")).write.into (.limited 7) = (.error .format, ⟨"goto bl", some 0⟩) := by
  obtain ⟨r, hr⟩ := limited_sinks_keep_prefixes.2.2 (Inst.goto (.addr "blk2"))
  have hall : (Inst.goto (.addr "blk2")).write.into {} = (.ok (), ⟨"goto blk2", none⟩) := by decide
  have htext : r.text = "goto blk2" := congrArg (fun p => p.2.kept) (hr.unlimited.symm.trans hall)
  refine ⟨hall, ?_⟩
  rw [hr.cut 7 (by rw [htext]; decide), htext]
  decide

end FlowText
