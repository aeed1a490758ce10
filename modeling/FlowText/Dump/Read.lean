import FlowText.Dump
import FlowText.Inst.Read
import FlowText.Text.Lines

/-!
# Reading dumps

A dump is read in two stages.

* `Entry`, `Reading.step` — the lines are gathered into entries. Lines that are no instructions are
  kept as they stand. A line `// …` that holds an instruction is the origin of the instruction on
  the next line.
* `Entry.graph` — the entries become a graph. Predecessors are not read: they follow from the exits.

`readDump` does both, and tells on which line a text is no dump.
-/

namespace FlowText

/-- A computation that logs and may fail. -/
abbrev Logged := ExceptT Error (StateM Log)

/-- Adds a log line. -/
def log (line : LogLine) : Logged Unit := modify (·.push line)

/-- Runs a computation: its result and what was logged. -/
def Logged.result {α : Type} (m : Logged α) : Except Error α × Log := (ExceptT.run m).run #[]

/-- An entry of a dump. -/
structure Entry where
  /-- the label -/
  addr : String
  /-- the postorder number -/
  number : Option Nat
  /-- the instructions, unless the placeholder stands in their place -/
  insts : Option (List Inst)
  /-- the exits, in order -/
  exits : List Exit
  /-- the line of the exits -/
  exitsLine : Nat
  deriving DecidableEq, Repr

/-- An entry whose exits were not read yet. -/
structure OpenEntry where
  /-- the label -/
  addr : String
  /-- the line of the label -/
  start : Nat
  /-- the postorder number -/
  number : Option Nat := none
  /-- the instructions so far -/
  insts : List Inst := []
  /-- the placeholder was read -/
  missing : Bool := false
  /-- an instruction on a line `// …` that waits for the next line, and that line -/
  waiting : Option (Inst × String) := none
  deriving DecidableEq, Repr

namespace OpenEntry

/-- Keeps a line that waits as it stands. -/
def flush (o : OpenEntry) : OpenEntry :=
  match o.waiting with
  | some (_, line) => { o with insts := o.insts ++ [.literal line], waiting := none }
  | none => o

/-- Adds an instruction. A line that waits is its origin. -/
def add (o : OpenEntry) (i : Inst) : OpenEntry :=
  match o.waiting with
  | some (earlier, _) => { o with insts := o.insts ++ [i.setOrigin earlier], waiting := none }
  | none => { o with insts := o.insts ++ [i] }

/-- The entry with its exits. -/
def close (o : OpenEntry) (exits : List Exit) (line : Nat) : Entry where
  addr := o.addr
  number := o.number
  insts := if o.missing then none else some o.insts
  exits := exits
  exitsLine := line

end OpenEntry

/-- How far the lines of a dump were read. -/
structure Reading where
  /-- the entries so far -/
  entries : List Entry := []
  /-- the entry that is being read -/
  current : Option OpenEntry := none
  /-- a postorder number that waits for its label -/
  number : Option Nat := none
  deriving DecidableEq, Repr

namespace Reading

/-- A line that is no part of a dump. -/
def fail {α : Type} (line : Nat) (e : DumpError) : Except Error α := .error (.parse line (.dump e))

/-- The text behind a mark at the start of a line. -/
def behind? (mark : String) (line : List Char) : Option (List Char) :=
  dropStart? mark.toList line

/-- The address on a line that is a label: it does not start with a blank. -/
def label? (line : List Char) : Option String :=
  match dropEnding? [':'] line with
  | some (c :: cs) => if isBlank c then none else some (String.ofList (c :: cs))
  | _ => none

/-- Reads a line between two entries. -/
def between (r : Reading) (n : Nat) (line : List Char) : Except Error Reading :=
  if (trim line).isEmpty || (behind? Dump.predMark line).isSome then .ok r
  else match behind? Dump.numberMark line with
    | some text =>
      match count? (trim text) with
      | some number => .ok { r with number := some number }
      | none => fail n (.badNumber (String.ofList (trim text)))
    | none =>
      match label? line with
      | some addr =>
        .ok { r with current := some { addr, start := n, number := r.number }, number := none }
      | none => fail n (.notLabel (String.ofList line))

/-- Ends an entry at its exits. -/
def close (r : Reading) (o : OpenEntry) (n : Nat) (text : List Char) : Except Error Reading :=
  match Exits.read text with
  | .error e => fail n (.exits e)
  | .ok exits =>
    if r.entries.any (·.addr == o.addr) then fail o.start (.duplicateLabel o.addr)
    else .ok { r with entries := r.entries ++ [o.flush.close exits n], current := none }

/-- The instruction on a line. A line that is none is kept as it stands. -/
def instOf (n : Nat) (line : String) : Logged Inst :=
  match onLine n Inst.ofText line with
  | .ok i => return i
  | .error e => do
    log (debug s!"Keeping line {n} as LIT: {e.message}")
    return .literal line

/-- The instruction on a line `// …`. -/
def originOf? (line : List Char) : Option Inst :=
  (behind? Dump.originMark line).bind fun text => (Inst.ofText (String.ofList text)).toOption

/-- Reads a line inside an entry that is not its last one. -/
def inside (o : OpenEntry) (n : Nat) (line : List Char) : Logged OpenEntry :=
  let text := String.ofList line
  if o.missing then throw (.parse n (.dump (.afterPlaceholder o.addr)))
  else if text = Dump.placeholder ∧ o.insts.isEmpty ∧ o.waiting.isNone then
    return { o with missing := true }
  else match originOf? line with
    | some earlier => return { o.flush with waiting := some (earlier, text) }
    | none => return o.add (← instOf n text)

/-- **Step.** Reads the line with the number `n`. -/
def step (r : Reading) (n : Nat) (line : List Char) : Logged Reading :=
  match r.current with
  | none => r.between n line
  | some o =>
    match behind? Dump.exitsMark line with
    | some text => r.close o n text
    | none => return { r with current := some (← inside o n line) }

/-- The entries, after all lines; the last one has the number `n`. -/
def finish (r : Reading) (n : Nat) : Except Error (List Entry) :=
  match r.current with
  | some o => fail n (.noExits o.addr o.start)
  | none => .ok r.entries

end Reading

/-- The entries of a dump. -/
def readEntries (text : String) : Logged (List Entry) := do
  let lines := lines text.toList
  let r ← lines.zipIdx.foldlM (fun r (line, i) => Reading.step r (i + 1) line) ({} : Reading)
  r.finish lines.length

namespace Entry

/-- Adds the node of an entry. -/
def addTo (g : Cfg) (e : Entry) : Cfg :=
  let (v, g) := g.ensureNode e.addr
  g.modifyNode v fun n =>
    { n with block := e.insts.map (Block.mk e.addr), number := e.number }

/-- Adds an exit of an entry. -/
def connect (e : Entry) (g : Cfg) (x : Exit) : Except Error Cfg := do
  let cond ← x.1.mapM (onLine e.exitsLine Cond.ofText)
  return (g.addEdge e.addr x.2 cond).2

/-- **Graph.** All entries are added before any exit is. The first entry that nothing leads to
becomes the graph's entry. -/
def graph (entries : List Entry) : Except Error Cfg := do
  let g := entries.foldl addTo {}
  let g ← entries.foldlM (fun g e => e.exits.foldlM e.connect g) g
  match entries.find? fun e => (g.pred e.addr).isEmpty with
  | some e => (g.setEntry e.addr).mapError .graph
  | none => return g

end Entry

/-- **Read.** The graph that a text is the dump of. -/
def readDump (text : String) : Logged Cfg := do
  let entries ← readEntries text
  let g ← Entry.graph entries
  log (debug s!"Read {g.nodeCount} CFG nodes and {g.edgeCount} edges")
  return g

end FlowText
