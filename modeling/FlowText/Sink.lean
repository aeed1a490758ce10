import FlowText.Error

/-!
# Sinks

Texts are written piece by piece into a sink, which may have room for a limited number of characters
only.

* `Sink.put` — keeps what there is room for.
* `Emit` — a computation that writes; it stops at the first piece that does not fit.
* `Emit.text` — what is written where there is room for everything.
-/

namespace FlowText

/-- What was written so far, and the room for more. -/
structure Sink where
  /-- the text written so far -/
  kept : String := ""
  /-- how many more characters fit; no number stands for no limit -/
  room : Option Nat := none
  deriving DecidableEq, Repr

namespace Sink

/-- A sink with room for `n` characters. -/
def limited (n : Nat) : Sink := { room := some n }

/-- Takes a piece of text. Of a piece that does not fit, the sink keeps what there is room for, and
has none left. -/
def put (s : Sink) (piece : String) : Except Error Unit × Sink :=
  match s.room with
  | none => (.ok (), { s with kept := s.kept ++ piece })
  | some n =>
    if piece.length ≤ n then (.ok (), ⟨s.kept ++ piece, some (n - piece.length)⟩)
    else (.error .format, ⟨s.kept ++ String.ofList (piece.toList.take n), some 0⟩)

end Sink

/-- A computation that writes into a sink and may fail. What was written before stays. -/
abbrev Emit := ExceptT Error (StateM Sink)

/-- Writes one piece of text. -/
def emit (piece : String) : Emit Unit := fun s => s.put piece

namespace Emit

/-- Runs a computation on a sink: how it ended, and the sink afterwards. -/
def into (m : Emit Unit) (s : Sink) : Except Error Unit × Sink := (ExceptT.run m).run s

/-- The text that a computation writes where there is room for everything, if it does not fail. -/
def text (m : Emit Unit) : Except Error String :=
  let (result, sink) := m.into {}
  result.map fun () => sink.kept

end Emit

end FlowText
