import FlowText.Command.Run

/-!
# The command line

Reaches files through the operating system, and carries out the command line that the program was
started with.
-/

namespace FlowText.Command

/-- An action, with the reason if it fails. -/
def attempt {α : Type} (act : IO α) : IO (Except String α) := do
  try return .ok (← act)
  catch e => return .error (toString e)

/-- The actions on the files of the system. -/
def systemFiles : Files IO where
  read path := attempt (IO.FS.readBinFile path)
  write path bytes := attempt (IO.FS.writeBinFile path bytes)
  rename source target := attempt (IO.FS.rename source target)
  remove path := attempt (IO.FS.removeFile path)

end FlowText.Command

def main (words : List String) : IO UInt32 := do
  let outcome ← FlowText.Command.run FlowText.Command.systemFiles words
  for remark in outcome.remarks do
    IO.eprintln remark
  IO.print outcome.shown
  return outcome.code.toUInt32
