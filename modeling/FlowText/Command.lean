import FlowText.Command.Words
import FlowText.Render
import FlowText.Text.Numeral

/-!
# Commands

    dump [--repr] [--no-dead] [--script FILE] [--iterations N] [-o FILE] [--dot FILE] FILE
    passes

`Request.ofWords` reads a command line. `--json` and `--verbose` may stand in front of the command's
name or behind it.
-/

namespace FlowText.Command

/-- What is asked for when a dump is read. -/
structure DumpRequest where
  /-- the file with the dump -/
  file : String
  layout : Layout := {}
  /-- the file with the script, if one is run -/
  script : Option String := none
  /-- how many rounds of the script may be run -/
  rounds : Nat := 1
  /-- the file that the dump goes to, in place of the standard output -/
  output : Option String := none
  /-- the file that a drawing goes to -/
  drawing : Option String := none
  deriving DecidableEq, Repr

/-- What is asked for. -/
inductive Task where
  | dump (request : DumpRequest)
  | passes
  deriving DecidableEq, Repr

/-- A command line that was read. -/
structure Request where
  /-- output as a JSON document -/
  json : Bool := false
  /-- tell more about the run -/
  verbose : Bool := false
  task : Task
  deriving DecidableEq, Repr

/-- A value fits its option: a number of rounds is a count, and a file has a name. -/
def accepts (key : Key) (value : String) : Bool :=
  match key with
  | .rounds => (count? value.toList).isSome
  | _ => !value.isEmpty

/-- The dump that is asked for. -/
def DumpRequest.ofFound (f : Found) : Except Stop DumpRequest :=
  match f.operands with
  | [] => .error (.usage .missingOperand)
  | file :: _ => .ok {
      file
      layout := { style := if f.has .diagnostic then .diagnostic else .canonical
                  omitDead := f.has .omitDead }
      script := f.value? .script
      rounds := ((f.value? .rounds).bind fun n => count? n.toList).getD 1
      output := f.value? .output
      drawing := f.value? .drawing }

/-- The request that the words behind a command's name make, after those in front of it. -/
def Request.ofFound (before : Found) (s : Scope) (build : Found → Except Stop Task)
    (words : List String) : Except Stop Request := do
  let (f, _) ← scan accepts s none {} words
  return {
    json := before.has .json || f.has .json
    verbose := before.has .verbose || f.has .verbose
    task := ← build f }

/-- The command that help is asked for. -/
def helpFor : List String → Stop
  | [] | ["help"] => .help .top
  | ["dump"] => .help .dump
  | ["passes"] => .help .passes
  | "dump" :: word :: _ | "passes" :: word :: _ | "help" :: word :: _ | word :: _ =>
    .usage (.unknownCommand word)

/-- **Read.** The request that a command line makes. -/
def Request.ofWords (words : List String) : Except Stop Request := do
  let (before, rest) ← scan accepts .top none {} words
  match rest with
  | [] => .error (.usage .missingCommand)
  | "dump" :: rest => ofFound before .dump (fun f => (DumpRequest.ofFound f).map .dump) rest
  | "passes" :: rest => ofFound before .passes (fun _ => .ok .passes) rest
  | "help" :: rest => .error (helpFor rest)
  | word :: _ => .error (.usage (.unknownCommand word))

end FlowText.Command
