import FlowText.Dump
import Mathlib

/-!
# Writing piece by piece

A text may be handed over in pieces, down to single characters and marks, and to any kind of sink:
all that a writer needs to know is how to `put` a piece. `Expr.feed`, `Cond.feed`, `Form.feed`,
`Quoted.feed` and so on write in this way what has a text, and `Inst.feed`, `Block.feed` and
`View.feed` what is written in the end.

A sink with limited room does not care where a text is cut (`Emit.emit_append`). So handing over the
pieces is handing over the text, and the piecewise writers are the writers themselves
(`Inst.feed_emit`, `Block.feed_emit`, `View.feed_emit`).
-/

namespace FlowText

/-- Work on a sink of some kind. What was done before a failure stays done. -/
abbrev EmitTo (σ : Type) := ExceptT Error (StateM σ)

/-! ### Writers for any kind of sink -/

section Feed

variable {σ α : Type} (put : String → EmitTo σ Unit)

/-- Hands over items, and a mark between two of them. -/
def feedBetween (mark : String) (feed : α → EmitTo σ Unit) : List α → EmitTo σ Unit
  | [] => pure ()
  | a :: more => do
    feed a
    more.forM fun b => do
      put mark
      feed b

/-- The canonical form of an expression, piece by piece. -/
def Expr.feed : Expr → EmitTo σ Unit
  | reg name c => do
    put c
    put "$"
    put name
  | value w r c => do
    put c
    put (r.signed w.toInt)
  | addr a c => do
    put c
    put a
  | mem ty base o c => do
    put c
    put "*("
    put ty
    put "*)"
    if o.toInt = 0 then base.feed
    else do
      put "("
      base.feed
      put (if 0 < o.toInt then " + " else " - ")
      put (Radix.hex.unsigned o.toInt.natAbs)
      put ")"
  | synthetic name c => do
    put c
    put name

mutual

/-- The canonical form of a condition, piece by piece. -/
def Cond.feed : Cond → EmitTo σ Unit
  | .simple lhs op rhs => do
    put "("
    lhs.feed put
    put " "
    put op.symbol
    put " "
    rhs.feed put
    put ")"
  | .compound chain => do
    put "("
    chain.feed
    put ")"

/-- The canonical form of a chain, piece by piece. -/
def Chain.feed : Chain → EmitTo σ Unit
  | .single c => c.feed
  | .join chain op c => do
    chain.feed
    put " "
    put op.symbol
    put " "
    c.feed

end

/-- The canonical form of an argument, piece by piece. -/
def Arg.feed : Arg → EmitTo σ Unit
  | expr e => e.feed put
  | cond c => c.feed put
  | verbatim t => put t

/-- The destination in front of a call, piece by piece. -/
def Form.feedDest : Option Expr → EmitTo σ Unit
  | none => pure ()
  | some d => do
    d.feed put
    put " = "

/-- The canonical form of a well-shaped operation, piece by piece. -/
def Form.feed : Form → EmitTo σ Unit
  | literal t => put t
  | ret => put "return"
  | goto a => do
    put "goto "
    a.feed put
  | call a => do
    put "call "
    a.feed put
  | assign d a => do
    d.feed put
    put " = "
    a.feed put
  | binary d op a b =>
    if updates d a then do
      d.feed put
      put " "
      put op.symbol
      put "= "
      b.feed put
    else do
      d.feed put
      put " = "
      a.feed put
      put " "
      put op.symbol
      put " "
      b.feed put
  | apply d name args => do
    feedDest put d
    put name
    put "("
    feedBetween put ", " (Arg.feed put) args
    put ")"

/-- The canonical form of an operation with a history, stage by stage and piece by piece. -/
def Operation.feed (o : Operation) : (origins : List Operation) → EmitTo σ Unit
  | [] => do
    let form ← o.form.mapError Error.malformed
    form.feed put
  | p :: ps => do
    let form ← o.form.mapError Error.malformed
    put "// "
    p.feed ps
    put "\n"
    form.feed put

/-- The canonical form of an instruction, piece by piece. -/
def Inst.feed (i : Inst) : EmitTo σ Unit := i.toOperation.feed put i.origins

/-- The lines of a block, each in three pieces. -/
def Block.feed (b : Block) (indent : Nat) (render : Renderer) : EmitTo σ Unit :=
  b.insts.forM fun i => do
    match ← render i with
    | none => pure ()
    | some text =>
      put (String.ofList (List.replicate (2 * indent) ' '))
      put text
      put "\n"

/-- One character of a literal. A backslash in front of it is a piece of its own. -/
def Quoted.feedChar (c : Char) : EmitTo σ Unit :=
  if c = '\\' ∨ c = quote then do
    put "\\"
    put (String.singleton c)
  else put (String.singleton c)

/-- A literal, character by character. -/
def Quoted.feed (text : String) : EmitTo σ Unit := do
  put (String.singleton quote)
  text.toList.forM (feedChar put)
  put (String.singleton quote)

/-- What stands for the condition of an exit, piece by piece. -/
def Exits.feedCond : Option String → EmitTo σ Unit
  | none => put noCond
  | some cond => Quoted.feed put cond

/-- One exit, piece by piece. -/
def Exits.feedExit (exit : Exit) : EmitTo σ Unit := do
  put "("
  feedCond put exit.1
  put ", "
  Quoted.feed put exit.2
  put ")"

namespace View

variable (v : View) (render : Renderer)

/-- The line with the postorder number, piece by piece. -/
def feedNumber (addr : String) : EmitTo σ Unit :=
  match v.number? addr with
  | none => pure ()
  | some n => do
    put (Dump.numberMark ++ " ")
    put (Radix.dec.unsigned n)
    put "\n"

/-- What stands between the label and the exits, piece by piece. -/
def feedBody (addr : String) : EmitTo σ Unit :=
  match v.block? addr with
  | some b => b.feed put 0 render
  | none => do
    put Dump.placeholder
    put "\n"

/-- The entry of an address, piece by piece. -/
def feedEntry (addr : String) : EmitTo σ Unit := do
  put (Dump.predMark ++ " [")
  feedBetween put ", " (Quoted.feed put) ((v.pred addr).mergeSort fun a b => decide (a ≤ b))
  put "]\n"
  v.feedNumber put addr
  put addr
  put ":\n"
  v.feedBody put render addr
  put (Dump.exitsMark ++ " [")
  feedBetween put ", " (Exits.feedExit put) (v.exits addr)
  put "]\n"

/-- A dump, piece by piece. -/
def feed : EmitTo σ Unit :=
  match v.addrs with
  | [] => pure ()
  | first :: more => do
    v.feedEntry put render first
    more.forM fun addr => do
      put "\n"
      v.feedEntry put render addr

end View

end Feed

/-! ### Pieces of a text -/

namespace EmitTo

variable {σ α β : Type} {m : EmitTo σ α} {k : α → EmitTo σ β} {s t : σ}

/-- A writer that goes on takes up the sink as it is then. -/
theorem bind_of_ok {a : α} (h : m s = (.ok a, t)) : (m >>= k) s = k a t := by
  change (ExceptT.run (m >>= k)).run s = _
  have hm : (ExceptT.run m).run s = (.ok a, t) := h
  rw [ExceptT.run_bind, StateT.run_bind, hm]
  rfl

/-- A writer that fails does not go on. -/
theorem bind_of_error {e : Error} (h : m s = (.error e, t)) : (m >>= k) s = (.error e, t) := by
  change (ExceptT.run (m >>= k)).run s = _
  have hm : (ExceptT.run m).run s = (.error e, t) := h
  rw [ExceptT.run_bind, StateT.run_bind, hm]
  rfl

end EmitTo

namespace Sink

variable {kept piece : String} {n : Nat}

/-- **A piece that fits** is kept. -/
theorem put_of_le (h : piece.length ≤ n) :
    put ⟨kept, some n⟩ piece = (.ok (), ⟨kept ++ piece, some (n - piece.length)⟩) :=
  if_pos h

/-- **A piece that does not fit** is kept as far as there is room. -/
theorem put_of_lt (h : n < piece.length) :
    put ⟨kept, some n⟩ piece = (.error .format,
      ⟨kept ++ String.ofList (piece.toList.take n), some 0⟩) :=
  if_neg (Nat.not_le.2 h)

end Sink

namespace Emit

/-- Nothing takes no room. -/
theorem emit_empty : emit "" = pure () := by
  funext ⟨kept, room⟩
  cases room <;> simp [emit, Sink.put] <;> rfl

/-- **Pieces.** A text may be cut anywhere: its second piece finds the room that the first one
left. -/
theorem emit_append (a b : String) : emit (a ++ b) = emit a >>= fun _ => emit b := by
  funext ⟨kept, room⟩
  cases room with
  | none => exact congrArg (fun t => (Except.ok (), (⟨t, none⟩ : Sink))) String.append_assoc.symm
  | some n =>
    change Sink.put _ _ = _
    rcases Nat.lt_or_ge n a.length with ha | ha
    · have ht : (a ++ b).toList.take n = a.toList.take n := by
        rw [String.toList_append,
          List.take_append_of_le_length (by rw [String.length_toList]; exact ha.le)]
      rw [EmitTo.bind_of_error (Sink.put_of_lt ha), Sink.put_of_lt (by simp; omega), ht]
    · rw [EmitTo.bind_of_ok (Sink.put_of_le ha)]
      change _ = Sink.put _ _
      rcases Nat.lt_or_ge (n - a.length) b.length with hb | hb
      · have ht : (a ++ b).toList.take n = a.toList ++ b.toList.take (n - a.length) := by
          rw [String.toList_append, List.take_append,
            List.take_of_length_le (by rwa [String.length_toList]), String.length_toList]
        rw [Sink.put_of_lt hb, Sink.put_of_lt (by simp; omega), ht, String.ofList_append,
          String.ofList_toList, String.append_assoc]
      · rw [Sink.put_of_le hb, Sink.put_of_le (by simp; omega), String.append_assoc,
          String.length_append, Nat.sub_add_eq]

end Emit

open Emit

/-- **Piece by piece, the text is written.** Expressions. -/
theorem Expr.feed_emit (e : Expr) : e.feed emit = emit e.text := by
  induction e with
  | mem ty base o c ih =>
    simp only [feed, text, memText, ih, apply_ite emit, emit_append, bind_assoc]
    split
    · rfl
    · split <;> rfl
  | reg name c => simp only [feed, text, emit_append, bind_assoc]
  | value w r c => simp only [feed, text, emit_append]
  | addr a c => simp only [feed, text, emit_append]
  | synthetic name c => simp only [feed, text, emit_append]

mutual

/-- Conditions, by recursion over what stands in them. -/
theorem Cond.feed_emit : (c : Cond) → c.feed emit = emit c.text
  | .simple lhs op rhs => by
    simp only [Cond.feed, Cond.text, Expr.feed_emit, emit_append, bind_assoc]
  | .compound chain => by
    simp only [Cond.feed, Cond.text, chain.feed_emit, emit_append, bind_assoc]

theorem Chain.feed_emit : (c : Chain) → c.feed emit = emit c.text
  | .single c => c.feed_emit
  | .join chain op c => by
    simp only [Chain.feed, Chain.text, chain.feed_emit, c.feed_emit, emit_append, bind_assoc]

end

/-- Arguments. -/
theorem Arg.feed_emit (a : Arg) : a.feed emit = emit a.text := by
  cases a with
  | expr e => exact e.feed_emit
  | cond c => exact c.feed_emit
  | verbatim t => rfl

/-- Texts with marks between them are one text. -/
theorem feedBetween_emit {α : Type} {mark : String} {feed : α → Emit Unit} {text : α → String}
    (h : ∀ a, feed a = emit (text a)) (items : List α) :
    feedBetween emit mark feed items = emit (mark.intercalate (items.map text)) := by
  cases items with
  | nil => exact emit_empty.symm
  | cons a more =>
    induction more generalizing a with
    | nil =>
      simp only [feedBetween, h, List.forM_eq_forM, List.forM_nil, bind_pure_unit, List.map_cons,
        List.map_nil, String.intercalate_singleton]
    | cons b more ih =>
      have hb := ih b
      simp only [feedBetween, h, List.forM_eq_forM, List.map_cons] at hb ⊢
      rw [List.forM_cons, bind_assoc, hb, String.intercalate_cons_cons, emit_append,
        emit_append, bind_assoc]

/-- Forms. -/
theorem Form.feed_emit (f : Form) : f.feed emit = emit f.text := by
  cases f with
  | binary d op a b =>
    simp only [feed, text, apply_ite emit, Expr.feed_emit, Arg.feed_emit, emit_append, bind_assoc]
  | apply d name args =>
    cases d <;> simp only [feed, feedDest, text, destText, Expr.feed_emit,
      feedBetween_emit Arg.feed_emit, emit_append, emit_empty, bind_assoc, pure_bind]
  | literal t => rfl
  | ret => rfl
  | goto a => simp only [feed, text, Arg.feed_emit, emit_append]
  | call a => simp only [feed, text, Arg.feed_emit, emit_append]
  | assign d a => simp only [feed, text, Expr.feed_emit, Arg.feed_emit, emit_append, bind_assoc]

/-- Instructions with their earlier stages. -/
theorem Operation.feed_emit (o : Operation) (origins : List Operation) :
    o.feed emit origins = o.write origins := by
  induction origins generalizing o with
  | nil => simp only [feed, write, Form.feed_emit]
  | cons p ps ih => simp only [feed, write, Form.feed_emit, ih]

theorem Inst.feed_emit (i : Inst) : i.feed emit = i.write := i.toOperation.feed_emit i.origins

/-- Blocks, for every renderer. -/
theorem Block.feed_emit (b : Block) (indent : Nat) (render : Renderer) :
    b.feed emit indent render = b.write indent render :=
  rfl

namespace Quoted

theorem feedChar_emit (c : Char) : feedChar emit c = emit (String.ofList (encodeChar c)) := by
  unfold feedChar encodeChar
  split
  · have hc : String.ofList ['\\', c] = "\\" ++ String.singleton c := by simp [String.ofList_cons]
    rw [hc, emit_append]
  · rfl

theorem feed_emit (t : String) : feed emit t = emit (encode t) := by
  have hbody (cs : List Char) :
      forM cs (feedChar emit) = emit (String.ofList (cs.flatMap encodeChar)) := by
    induction cs with
    | nil => exact emit_empty.symm
    | cons c cs ih =>
      rw [List.forM_cons, feedChar_emit, ih, List.flatMap_cons, String.ofList_append, emit_append]
  have htext : encode t = String.singleton quote ++ (String.ofList (t.toList.flatMap encodeChar) ++
      String.singleton quote) := by
    simp [encode, String.ofList_cons]
  rw [feed, List.forM_eq_forM, hbody, htext, emit_append, emit_append]

end Quoted

/-- Exits. -/
theorem Exits.feedExit_emit (x : Exit) : Exits.feedExit emit x = emit (Exits.exitText x) := by
  obtain ⟨cond, addr⟩ := x
  cases cond <;> simp only [feedExit, feedCond, exitText, Quoted.feed_emit, emit_append, bind_assoc]

namespace View

variable (v : View) (render : Renderer)

/-- Entries of a dump. -/
theorem feedEntry_emit (addr : String) :
    v.feedEntry emit render addr = v.writeEntry render addr := by
  have hopen : emit " [" = emit " " >>= fun _ => emit "[" := emit_append " " "["
  have hclose : emit "]\n" = emit "]" >>= fun _ => emit "\n" := emit_append "]" "\n"
  simp only [feedEntry, feedNumber, feedBody, writeEntry, predLine, numberLine, exitsLine,
    Exits.text, Block.feed_emit,
    feedBetween_emit Quoted.feed_emit, feedBetween_emit Exits.feedExit_emit]
  cases v.number? addr <;> cases v.block? addr <;>
    simp only [emit_append, emit_empty, hopen, hclose, bind_assoc, pure_bind]

theorem feed_emit : v.feed emit render = v.write render := by
  unfold feed write
  cases v.addrs with
  | nil => rfl
  | cons first more => simp only [feedEntry_emit]

end View

end FlowText
