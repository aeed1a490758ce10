import FlowText.Dump

/-!
# Saving dumps

A file takes bytes until it is full. A dump is worked out as a whole before any byte is handed over,
so a graph that has no dump leaves the file as it is.

* `ByteSink.put` — hands bytes over; a full file keeps what there was room for.
* `View.save` — hands over a dump.
-/

namespace FlowText

/-- A file that is written to. -/
structure ByteSink where
  /-- the bytes written so far -/
  kept : List UInt8 := []
  /-- how many more bytes fit; no number stands for no limit -/
  room : Option Nat := none
  /-- what the file reports when it is full -/
  whenFull : FileError := .writeZero
  deriving DecidableEq, Repr

namespace ByteSink

/-- Hands bytes over. Where there is nothing to hand over, a full file does not mind. -/
def put (s : ByteSink) (bytes : List UInt8) : Except Error Unit × ByteSink :=
  match s.room with
  | none => (.ok (), { s with kept := s.kept ++ bytes })
  | some n =>
    let result := if bytes.length ≤ n then .ok () else .error (.file s.whenFull)
    (result, { s with kept := s.kept ++ bytes.take n, room := some (n - bytes.length) })

end ByteSink

/-- **Save.** Hands the dump over to a file, in UTF-8. -/
def View.save (v : View) (render : Renderer) (s : ByteSink) : Except Error Unit × ByteSink :=
  match v.dump render with
  | .ok text => s.put text.toUTF8.data.toList
  | .error e => (.error e, s)

end FlowText
