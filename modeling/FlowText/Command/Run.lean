import FlowText.Command
import FlowText.Command.Files
import FlowText.Drawing
import FlowText.Dump.Read
import FlowText.Pipeline
import FlowText.Text.Json
import FlowText.Text.Table

/-!
# Running commands

* `Product.make` — all that a dump request asks for, worked out before anything is written.
* `runDump`, `shownPasses` — the two commands.
* `run` — carries out a command line: what is written to which file, and what the user is told.
-/

namespace FlowText.Command

/-- What a file is read for. -/
inductive Input where
  | dump | script
  deriving DecidableEq, Repr

/-- What is read, in a word. -/
def Input.word : Input → String
  | dump => "dump"
  | script => "script"

/-- Why a command gives up. -/
inductive Failure where
  /-- a file cannot be read -/
  | unreadable (input : Input) (path reason : String)
  /-- a file does not hold what it is read for -/
  | malformed (input : Input) (path : String) (e : Error)
  /-- the script asks for a pass that does not exist -/
  | unresolved (e : Error)
  /-- a pass failed -/
  | failedRun (e : Error)
  /-- the graph cannot be shown -/
  | unshown (e : Error)
  /-- the graph cannot be drawn -/
  | undrawn (e : Error)
  /-- a file cannot be written -/
  | unwritten (e : ReplaceError)
  deriving DecidableEq, Repr

namespace Failure

/-- What could not be done, if there is more to say than the cause. -/
def task? : Failure → Option String
  | unreadable input path _ => some s!"failed to read {input.word}: {path}"
  | malformed input path _ => some s!"failed to parse {input.word}: {path}"
  | unresolved _ => none
  | failedRun _ => some "pass pipeline failed"
  | unshown _ => some "failed to render dump"
  | undrawn _ => some "failed to render DOT"
  | unwritten (.write scratch _) => some s!"failed to write {scratch}"
  | unwritten (.rename path _) => some s!"failed to replace {path}"

/-- Why it could not be done. -/
def cause : Failure → String
  | unreadable _ _ reason | unwritten (.write _ reason) | unwritten (.rename _ reason) => reason
  | malformed _ _ e | unresolved e | failedRun e | unshown e | undrawn e => e.message

/-- What went wrong, in words. -/
def message (f : Failure) : String :=
  match f.task? with
  | some task => s!"Error: {task}\n\nCaused by:\n    {f.cause}"
  | none => s!"Error: {f.cause}"

end Failure

/-- The graph of a dump, with what is logged when it is read. -/
def parseDump (path text : String) : Except Failure (Cfg × Log) :=
  let (graph, log) := (readDump text).result
  (graph.mapError (.malformed .dump path)).map (·, log)

/-- The steps of a script. -/
def parseScript (path text : String) : Except Failure Script :=
  (Script.read text).mapError (.malformed .script path)

/-- What a dump request asks for. -/
structure Product where
  /-- the graph after the script -/
  graph : Cfg
  /-- how many steps the script has -/
  steps : Nat
  /-- the script changed the graph -/
  changed : Bool
  dump : String
  /-- a drawing, if one is asked for -/
  drawing : Option String
  log : Log
  deriving DecidableEq, Repr

namespace Product

/-- **Make.** Runs a script over a graph and shows what comes out. -/
def make (r : DumpRequest) (graph : Cfg) (readLog : Log) (steps : Script) :
    Except Failure Product := do
  let pipeline ← (Pipeline.ofScript (σ := Unit) steps .stock { maxRounds := r.rounds }).mapError
    .unresolved
  let (changed, bench) := pipeline.run.on { subject := graph, memory := () }
  let changed ← changed.mapError .failedRun
  let graph := bench.subject
  let dump ← (graph.view.dump r.layout.render).mapError .unshown
  let drawing ← r.drawing.mapM fun _ =>
    (graph.draw (Path.stem? r.file) r.layout.render).mapError .undrawn
  let applied :=
    if steps.isEmpty then #[]
    else #[info s!"Applied {steps.length} steps, changed={changed}"]
  return {
    graph, steps := steps.length, changed, dump, drawing
    log := readLog ++ #[pipeline.resolved] ++ bench.log ++ applied ++ #[graph.view.dumped] }

/-- A short account as a document. It holds the dump unless that went to a file. -/
def summary (p : Product) (r : DumpRequest) : Json :=
  let file key path := (path.map fun (t : String) => (key, Json.text t)).toList
  let dump := if r.output.isNone then [("dump", Json.text p.dump)] else []
  .object ([("nodes", .number p.graph.nodeCount), ("edges", .number p.graph.edgeCount),
    ("steps", .number p.steps), ("changed", .bool p.changed)] ++
    file "output" r.output ++ file "dot" r.drawing ++ dump)

/-- What goes to the standard output. -/
def shown (p : Product) (r : DumpRequest) (json : Bool) : String :=
  if json then (p.summary r).print ++ "\n"
  else if r.output.isNone then p.dump
  else ""

/-- What the user is told about the files that were written. -/
def notes (p : Product) (r : DumpRequest) (json : Bool) : List String :=
  if json then []
  else
    let dump := r.output.map fun path =>
      s!"Wrote {p.graph.nodeCount} nodes, {p.graph.edgeCount} edges to {path}"
    dump.toList ++ (r.drawing.map fun path => s!"Wrote DOT graph to {path}").toList

end Product

/-- How a command ended. -/
structure Outcome where
  /-- the exit code -/
  code : Nat := 0
  /-- what goes to the standard output -/
  shown : String := ""
  /-- lines for the user that are no part of the output -/
  remarks : List String := []
  deriving DecidableEq, Repr

/-- The log lines that a user wants to see. -/
def visible (verbose : Bool) (log : Log) : List String :=
  (log.toList.filter fun l => verbose || l.level = .info).map LogLine.text

/-- The rows of the table of passes, with the names of the columns in front. -/
def passRows (passes : List (Pass Unit)) : List (List String) :=
  ["Keyword", "Name", "Description"] :: passes.map fun p => [p.kind.keyword, p.name, p.description]

/-- The passes as a document. -/
def passList (passes : List (Pass Unit)) : Json :=
  .list (passes.map fun p => .object [("keyword", .text p.kind.keyword), ("name", .text p.name),
    ("description", .text p.description)])

/-- What the list of passes looks like. -/
def shownPasses (passes : List (Pass Unit)) (json : Bool) : String :=
  if json then (passList passes).print ++ "\n" else Table.text (passRows passes)

section

variable {m : Type → Type} [Monad m]

/-- Reads a file. -/
def readFile (files : Files m) (input : Input) (path : String) : ExceptT Failure m String :=
  ExceptT.mk do return (← files.readText path).mapError (.unreadable input path)

/-- Writes a file. -/
def writeFile (files : Files m) (path text : String) : ExceptT Failure m Unit :=
  ExceptT.mk do return (← files.replace path text).mapError .unwritten

/-- Reads a file, and then what its text says. -/
def load {α : Type} (files : Files m) (input : Input)
    (parse : (path text : String) → Except Failure α) (path : String) : ExceptT Failure m α := do
  let text ← readFile files input path
  ExceptT.mk (pure (parse path text))

/-- Carries out a dump request. Files are written last: the dump, then the drawing. -/
def runDump (files : Files m) (r : DumpRequest) : ExceptT Failure m Product := do
  let (graph, log) ← load files .dump parseDump r.file
  let steps ← r.script.mapM (load files .script parseScript)
  let p ← ExceptT.mk (pure (Product.make r graph log (steps.getD [])))
  if let some path := r.output then writeFile files path p.dump
  if let (some path, some drawing) := (r.drawing, p.drawing) then writeFile files path drawing
  return p

/-- Carries out a request. -/
def runRequest (files : Files m) (q : Request) : m Outcome :=
  match q.task with
  | .passes => return { shown := shownPasses (Catalog.stock (σ := Unit)).passes q.json }
  | .dump r => do
    match ← (runDump files r).run with
    | .error e => return { code := 1, remarks := [e.message] }
    | .ok p => return {
        shown := p.shown r q.json
        remarks := visible q.verbose p.log ++ p.notes r q.json }

end

/-- How each command is used. -/
def usage : Scope → String
  | .top => "usage: [--json] [--verbose] (dump | passes)\n"
  | .dump => "usage: dump [--repr] [--no-dead] [--script FILE] [--iterations N] [-o FILE] " ++
      "[--dot FILE] FILE\n"
  | .passes => "usage: passes\n"

/-- The version of the commands. -/
def version : String := "0.1.0"

/-- **Run.** Carries out a command line. A command line that does not fit ends with code 2, and any
other failure with code 1. -/
def run {m : Type → Type} [Monad m] (files : Files m) (words : List String) : m Outcome :=
  match Request.ofWords words with
  | .ok q => runRequest files q
  | .error (.help s) => return { shown := usage s }
  | .error .version => return { shown := version ++ "\n" }
  | .error (.usage e) => return { code := 2, remarks := [e.message, usage .top] }

end FlowText.Command
